import Graft.Proofs.Integration.Packages
import Graft.Proofs.Scope.Insert
import Graft.Proofs.Step.Insertion

/-! # What comes into the application entry

The start-up call, the registration of the package and the accessor are lines with balanced braces
that hold their markers, and white space aside they are apart from the headers of the two methods
that the steps look for (`IsPiece`). -/

namespace Graft.Entry

open Pattern
open Text (Body Insertion Whole squeeze apart)
open Brace (isBalanced)

variable {t t' p q lead indent w : Text} {ls : List Text}

/-! ### Headers -/

def onCreateWord : Text := "override".toList ++ "fun".toList ++ "onCreate()".toList

def getPackagesWord : Text := "override".toList ++ "fun".toList ++ "getPackages()".toList

theorem isHeader_method {name : String} (h : Compact name.toList) (hopen : '{' ∉ name.toList) :
    (method name).IsHeader ("override".toList ++ "fun".toList ++ name.toList) where
  flat := flat_method name
  plain := plain_method name
  squeezes := squeezes_method h
  noOpen := by
    rw [List.mem_append, not_or]
    exact ⟨by decide, hopen⟩

theorem isHeader_onCreate : onCreate.IsHeader onCreateWord := isHeader_method (by decide) (by decide)

theorem isHeader_getPackages : getPackages.IsHeader getPackagesWord :=
  isHeader_method (by decide) (by decide)

/-! ### Pieces -/

/-- Lines that make up a text: `inside` occurs in one of them, none of `outside` does, and they are
apart from `away`. -/
structure IsPiece (ls : List Text) (text inside : Text) (outside away : List Text) : Prop where
  text_eq : text = Text.joinLines ls
  body : Body ls
  balanced : isBalanced (squeeze ls.flatten)
  opens : ∃ l ∈ ls, '{' ∈ l
  inside : ∃ l ∈ ls, inside <:+: l
  outside : ∀ w ∈ outside, ∀ l ∈ ls, ¬w <:+: l
  apart : ∀ w ∈ away, apart w (squeeze ls.flatten)

instance (ls : List Text) (text inside : Text) (outside away : List Text) :
    Decidable (IsPiece ls text inside outside away) :=
  decidable_of_iff (text = Text.joinLines ls ∧ Body ls ∧ isBalanced (squeeze ls.flatten) ∧
    (∃ l ∈ ls, '{' ∈ l) ∧ (∃ l ∈ ls, inside.occursIn l) ∧ (∀ w ∈ outside, ∀ l ∈ ls, ¬w.occursIn l) ∧
      ∀ w ∈ away, apart w (squeeze ls.flatten)) <| by
    simp only [Text.occursIn_iff]
    exact ⟨fun ⟨h1, h2, h3, h4, h5, h6, h7⟩ => ⟨h1, h2, h3, h4, h5, h6, h7⟩,
      fun ⟨h1, h2, h3, h4, h5, h6, h7⟩ => ⟨h1, h2, h3, h4, h5, h6, h7⟩⟩

def startUpLines : List Text := Payload.standardInitCall.lines

def registrationLines : List Text := Payload.standardPackageRegistration.lines

def accessorLines : List Text := Payload.standardBundleAccessor.lines

/-- The words of the declaration that is rewritten. -/
def immutableWord : Text :=
  "val".toList ++ "packages".toList ++ "=".toList ++ "PackageList(this).packages".toList

theorem isPiece_joinLines {inside : Text} {outside away : List Text}
    (h : IsPiece ls (Text.joinLines ls) inside outside away) :
    IsPiece (Text.joinLines ls).lines (Text.joinLines ls) inside outside away := by
  rwa [Text.lines_joinLines h.body.1]

set_option maxRecDepth 4096 in
theorem isPiece_startUp : IsPiece startUpLines Payload.standard.androidInitCall
    Payload.standard.androidInitMarker [] [onCreateWord, getPackagesWord, immutableWord] := by
  refine isPiece_joinLines ?_
  -- `rw` takes a literal for the list of its characters, which the kernel would have to decode
  simp only [List.map_cons, List.map_nil, -String.reduceToList, -String.reduceAppend]
  repeat rw [String.toList_ofList]
  decide

set_option maxRecDepth 4096 in
theorem isPiece_registration : IsPiece registrationLines
    Payload.standard.androidPackageRegistration Payload.standard.androidPackageMarker
    [Payload.standard.androidInitMarker] [onCreateWord, getPackagesWord, immutableWord] := by
  refine isPiece_joinLines ?_
  simp only [List.map_cons, List.map_nil, String.toList_append, -String.reduceToList,
    -String.reduceAppend]
  repeat rw [String.toList_ofList]
  decide

set_option maxRecDepth 4096 in
theorem isPiece_accessor : IsPiece accessorLines Payload.standard.androidBundleAccessor
    Payload.standard.androidBundleAccessorMarker [Payload.standard.androidInitMarker]
    [onCreateWord, getPackagesWord, immutableWord, "returnpackages".toList] := by
  refine isPiece_joinLines ?_
  simp only [List.map_cons, List.map_nil, -String.reduceToList, -String.reduceAppend]
  repeat rw [String.toList_ofList]
  decide

end Graft.Entry
