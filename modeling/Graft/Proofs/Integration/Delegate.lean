import Graft.Integration.Delegate
import Graft.Proofs.Scope.Insert
import Graft.Proofs.Step.Method
import Graft.Proofs.Step.Insertion

/-! # The steps for an application delegate

The import step leaves a text alone that has an import of the library, and adds the line of its
dialect to any other (`importStep_cases`).  The bodies of the two forms of the method are lines
with balanced braces (`proper_bundleUrlStep`). -/

namespace Graft.Delegate

open Text (AtLineStart Body Insertion LineWord squeeze)
open Brace (Free isBalanced)
open Pattern

variable {t : Text}

/-! ### The import -/

/-- Whether a text has an import of the library, in either dialect. -/
def HasImport (t : Text) : Prop := ∃ w ∈ Payload.standard.iosImportMarkers, w <:+: t

instance (t : Text) : Decidable (HasImport t) :=
  decidable_of_iff (∃ w ∈ Payload.standard.iosImportMarkers, w.occursIn t) <| by
    simp only [Text.occursIn_iff, HasImport]

/-- The import line in the dialect of a text. -/
def importLine (t : Text) : Text :=
  if objcMarker.occursIn t then Payload.standard.iosImportObjc else Payload.standard.iosImport

theorem importLine_mem (t : Text) : importLine t ∈ Payload.standard.iosImportMarkers := by
  rw [importLine]
  split
  · exact List.mem_cons_of_mem _ (List.mem_cons_self ..)
  · exact List.mem_cons_self ..

theorem linesFor_importStep (t : Text) :
    (importStep .standard).linesFor t = [importLine t] := by
  simp only [LinesStep.linesFor, importStep, importLine]
  split <;> rfl

theorem lineWord_marker : ∀ w ∈ Payload.standard.iosImportMarkers, LineWord w := by decide

theorem free_marker : ∀ w ∈ Payload.standard.iosImportMarkers, Free w := by decide

/-- The starts of the lines behind which an import goes. -/
def importStarts : List Text := ["import ".toList, "#import ".toList]

/-- A place behind a line with an import, or at the start of the file. -/
def ImportPlace (p : Text) : Prop :=
  p = [] ∨ ∃ x l, p = x ++ l ∧ AtLineStart x ∧ (∀ y c z, l = y ++ c :: z → '\n' ∉ y) ∧
    Locator.startsWithOne importStarts l

theorem exists_importPlace (payload : Payload) (t : Text) :
    ∃ a p q, resolve? (importStep payload).chain t = some a ∧ PlaceAt t p q a.place ∧
      AtLine p q ∧ ImportPlace p := by
  cases hlast : (Locator.lastLineWith importStarts).find? t with
  | some place =>
      obtain ⟨x, l, q, hat, hx, hline, hnl, hstarts⟩ := exists_piece_of_lastLineWith hlast
      exact ⟨_, x ++ l, q, resolve?_cons_of_find? hlast, hat, hline, .inr ⟨x, l, rfl, hx, hnl, hstarts⟩⟩
  | none =>
      refine ⟨_, [], t, (resolve?_cons_of_none hlast).trans (resolve?_cons_of_find? rfl),
        ⟨rfl, rfl, rfl⟩, .inl Text.atLineStart_nil, .inl rfl⟩

theorem importStep_cases (t : Text) (sink : Sink) :
    HasImport t ∧ ((importStep .standard).apply t sink).1 = t ∨
      ¬HasImport t ∧ ∃ p lead indent q, ImportPlace p ∧
        Insertion [importLine t] p lead indent q t ((importStep .standard).apply t sink).1 := by
  have hword : LineWord (importLine t) := lineWord_marker _ (importLine_mem t)
  by_cases himport : HasImport t
  · obtain ⟨w, hw, hin⟩ := id himport
    refine .inl ⟨himport, LinesStep.apply_of_present (fun l hl => ?_)
      (.inl ⟨w, hw, (lineWord_marker w hw).ne_nil, hin⟩) sink⟩
    rw [linesFor_importStep, List.mem_singleton] at hl
    exact hl ▸ hword
  · have habsent : ∀ w ∈ Payload.standard.iosImportMarkers, ¬w <:+: t :=
      fun w hw hin => himport ⟨w, hw, hin⟩
    obtain ⟨a, p, q, ha, hat, hline, hplace⟩ := exists_importPlace .standard t
    obtain ⟨lead, hins⟩ := ensureLines_of_missing_line hword habsent
      (fun h => habsent _ (importLine_mem t) (hword.infix_of_hasLine h)) ha hat
      (Edge.break (.inl hline))
    refine .inr ⟨himport, p, lead, a.place.indent, q, hplace, ?_⟩
    rw [LinesStep.apply_fst, linesFor_importStep]
    exact hins

/-! ### The headers -/

def swiftWord : Text :=
  "override".toList ++ "func".toList ++ "bundleURL()".toList ++ "->".toList ++ "URL?".toList

def objcWord : Text :=
  "-".toList ++ "(NSURL".toList ++ "*".toList ++ ")".toList ++ "bundleURL".toList

theorem isHeader_swiftBundleUrl : swiftBundleUrl.IsHeader swiftWord where
  flat := ⟨⟨⟨⟨⟨⟨⟨⟨flat_ofText _, trivial⟩, flat_ofText _⟩, trivial⟩, flat_ofText _⟩, trivial⟩,
    flat_ofText _⟩, trivial⟩, flat_ofText _⟩
  plain := ⟨⟨⟨⟨⟨⟨⟨⟨plain_ofText _, trivial⟩, plain_ofText _⟩, trivial⟩, plain_ofText _⟩, trivial⟩,
    plain_ofText _⟩, trivial⟩, plain_ofText _⟩
  squeezes := ((((squeezes_lit (by decide)).blanks1_lit (by decide)).blanks1_lit
    (by decide)).blanks_lit (by decide)).blanks_lit (by decide)
  noOpen := by decide

theorem isHeader_objcBundleUrl : objcBundleUrl.IsHeader objcWord where
  flat := ⟨⟨⟨⟨⟨⟨⟨⟨flat_ofText _, trivial⟩, flat_ofText _⟩, trivial⟩, flat_ofText _⟩, trivial⟩,
    flat_ofText _⟩, trivial⟩, flat_ofText _⟩
  plain := ⟨⟨⟨⟨⟨⟨⟨⟨plain_ofText _, trivial⟩, plain_ofText _⟩, trivial⟩, plain_ofText _⟩, trivial⟩,
    plain_ofText _⟩, trivial⟩, plain_ofText _⟩
  squeezes := ((((squeezes_lit (by decide)).blanks_lit (by decide)).blanks_lit
    (by decide)).blanks_lit (by decide)).blanks_lit (by decide)
  noOpen := by decide

/-! ### The method -/

def swiftLines : List Text := Payload.standardBundleUrlSwift.lines

def objcLines : List Text := Payload.standardBundleUrlObjc.lines

/-- The form of the method in Swift. -/
def swiftForm : MethodVariant := ⟨swiftBundleUrl, Payload.standard.iosBundleUrlSwift, none⟩

/-- The form of the method in Objective-C. -/
def objcForm : MethodVariant :=
  ⟨objcBundleUrl, Payload.standard.iosBundleUrlObjc, some objcMarker⟩

theorem variants_bundleUrlStep : (bundleUrlStep .standard).variants = [swiftForm, objcForm] := rfl

/-- Lines that make up a text and have balanced braces. -/
structure IsBody (ls : List Text) (text : Text) : Prop where
  text_eq : text = Text.joinLines ls
  body : Body ls
  balanced : isBalanced (squeeze ls.flatten)

instance (ls : List Text) (text : Text) : Decidable (IsBody ls text) :=
  decidable_of_iff (text = Text.joinLines ls ∧ Body ls ∧ isBalanced (squeeze ls.flatten))
    ⟨fun ⟨h1, h2, h3⟩ => ⟨h1, h2, h3⟩, fun ⟨h1, h2, h3⟩ => ⟨h1, h2, h3⟩⟩

theorem isBody_joinLines {ls : List Text} (h : IsBody ls (Text.joinLines ls)) :
    IsBody (Text.joinLines ls).lines (Text.joinLines ls) := by
  rwa [Text.lines_joinLines h.body.1]

set_option maxRecDepth 4096 in
theorem isBody_swift : IsBody swiftLines Payload.standardBundleUrlSwift := by
  refine isBody_joinLines ?_
  -- `rw` takes a literal for the list of its characters, which the kernel would have to decode
  simp only [List.map_cons, List.map_nil, String.toList_append, -String.reduceToList,
    -String.reduceAppend]
  repeat rw [String.toList_ofList]
  decide

set_option maxRecDepth 4096 in
theorem isBody_objc : IsBody objcLines Payload.standardBundleUrlObjc := by
  refine isBody_joinLines ?_
  simp only [List.map_cons, List.map_nil, String.toList_append, -String.reduceToList,
    -String.reduceAppend]
  repeat rw [String.toList_ofList]
  decide

theorem hasLines_swiftForm : swiftForm.HasLines swiftLines where
  flat := isHeader_swiftBundleUrl.flat
  body_eq := isBody_swift.text_eq
  body := isBody_swift.body
  balanced := isBody_swift.balanced

theorem hasLines_objcForm : objcForm.HasLines objcLines where
  flat := isHeader_objcBundleUrl.flat
  body_eq := isBody_objc.text_eq
  body := isBody_objc.body
  balanced := isBody_objc.balanced

theorem flat_objcEnd : objcEnd.Flat := ⟨⟨⟨trivial, trivial⟩, flat_ofText _⟩, trivial⟩

/-- The places for the method are breaks, whatever its body is. -/
theorem properChain_bundleUrlStep (payload : Payload) : ProperChain (bundleUrlStep payload).chain := by
  simp only [ProperChain, bundleUrlStep, List.mem_cons, List.not_mem_nil, or_false]
  rintro r (rfl | rfl)
  · exact .inl (.inl flat_objcEnd)
  · exact .inl (.inr (.inl rfl))

theorem proper_bundleUrlStep : (bundleUrlStep .standard).Proper where
  variants := by
    rw [variants_bundleUrlStep]
    simp only [List.mem_cons, List.not_mem_nil, or_false]
    rintro v (rfl | rfl)
    · exact ⟨_, hasLines_swiftForm⟩
    · exact ⟨_, hasLines_objcForm⟩
  chain := properChain_bundleUrlStep _

end Graft.Delegate
