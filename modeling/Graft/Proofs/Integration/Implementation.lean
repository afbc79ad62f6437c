import Graft.Proofs.Integration.DelegateDialect

/-! # Where the method comes in

The method goes before the first line that starts with `@end`, whatever that line ends, or before the
last closing brace when there is no such line.  So it is behind the first mention of an
implementation section exactly when the text mentions one before each such line
(`inserted_in_implementation_iff`); an interface that comes first takes the method. -/

namespace Graft.Delegate

open Text (AtLineStart Spliced Whole inset)
open Pattern

variable {payload : Payload} {t u p q r x y l s v piece lead indent : Text}

/-- What ends a section. -/
def endWord : Text := "@end".toList

/-- The text starts with the end of a section, indented or not. -/
def BeginsEnd (y : Text) : Prop :=
  ∃ ind z, y = ind ++ endWord ++ z ∧ ind.all isIndent ∧ z.head?.any isWordChar = false

/-- A line that ends a section starts between `x` and `y`. -/
def EndLine (x y : Text) : Prop := AtLineStart x ∧ BeginsEnd y

/-- An implementation section is mentioned before every line that ends a section, or before the last
closing brace if there is no such line. -/
structure ImplementationFirst (t : Text) : Prop where
  ends : ∀ x y, t = x ++ y → EndLine x y → objcMarker <:+: x
  brace : (∀ x y, t = x ++ y → ¬EndLine x y) →
    ∀ x y, t = x ++ '}' :: y → '}' ∉ y → objcMarker <:+: x

/-! ### Ends of sections -/

theorem whole_endWord : Whole endWord := by decide

/-- What lies behind the line does not matter. -/
theorem beginsEnd_newline_iff : BeginsEnd (l ++ '\n' :: s) ↔ BeginsEnd l := by
  constructor
  · rintro ⟨ind, z, e, hind, hz⟩
    have hnl : '\n' ∉ ind ++ endWord := by
      rw [List.mem_append, not_or]
      exact ⟨newline_notMem_of_all hind, by decide⟩
    have e' : l ++ '\n' :: s = (ind ++ endWord) ++ z := by simpa using e
    obtain ⟨z', rfl, rfl⟩ := Text.prefix_before e' hnl
    refine ⟨ind, z', by simp, hind, ?_⟩
    cases z' with
    | nil => rfl
    | cons c z' => exact hz
  · rintro ⟨ind, z, rfl, hind, hz⟩
    refine ⟨ind, z ++ '\n' :: s, by simp, hind, ?_⟩
    cases z with
    | nil => exact (by decide : isWordChar '\n' = false)
    | cons c z => exact hz

theorem BeginsEnd.holdsWord (h : BeginsEnd y) : endWord <:+: y := by
  obtain ⟨ind, z, rfl, -, -⟩ := h
  exact ⟨ind, z, rfl⟩

theorem spans_objcEnd_iff {w b : Text} : objcEnd.Spans x w b ↔
    AtLineStart x ∧ ∃ ind, w = ind ++ endWord ∧ ind.all isIndent ∧
      b.head?.any isWordChar = false := by
  -- The last character of the match is a letter, so that a boundary follows it.
  have hlast : ∀ ind : Text, Assertion.boundary.holds (x ++ (ind ++ endWord)).getLast? b.head? ↔
      b.head?.any isWordChar = false := by
    intro ind
    have e : x ++ (ind ++ endWord) = (x ++ ind ++ ['@', 'e', 'n']) ++ ['d'] := by simp [endWord]
    have hword : isWordChar 'd' = true := by decide
    rw [e, List.getLast?_concat]
    unfold Assertion.holds
    simp [hword]
  unfold objcEnd
  constructor
  · rintro ⟨_, _, rfl, ⟨_, _, rfl, ⟨_, ind, rfl, hstart, hind⟩, hend⟩, hbound⟩
    obtain ⟨rfl, hline⟩ := spans_assert.mp hstart
    obtain rfl := spans_lit.mp hend
    obtain ⟨rfl, hword⟩ := spans_assert.mp hbound
    exact ⟨holds_lineStart.mp hline, ind, by simp [endWord], spans_indent.mp hind,
      (hlast ind).mp hword⟩
  · rintro ⟨hstart, ind, rfl, hind, hb⟩
    refine ⟨ind ++ endWord, [], (List.append_nil _).symm, ⟨ind, endWord, rfl, ⟨[], ind, rfl, ?_, ?_⟩,
      spans_lit.mpr rfl⟩, spans_assert.mpr ⟨rfl, (hlast ind).mpr hb⟩⟩
    · exact spans_assert.mpr ⟨rfl, holds_lineStart.mpr hstart⟩
    · exact spans_indent.mpr hind

/-- Where such a line starts, and only there, the pattern matches. -/
theorem endLine_iff : EndLine x y ↔ ∃ w b, y = w ++ b ∧ objcEnd.Spans x w b := by
  constructor
  · rintro ⟨hx, ind, z, rfl, hind, hz⟩
    exact ⟨ind ++ endWord, z, rfl, spans_objcEnd_iff.mpr ⟨hx, ind, rfl, hind, hz⟩⟩
  · rintro ⟨w, b, rfl, hw⟩
    obtain ⟨hx, ind, rfl, hind, hb⟩ := spans_objcEnd_iff.mp hw
    exact ⟨hx, ind, b, rfl, hind, hb⟩

/-! ### The place of the method -/

theorem tight_objcMarker : Text.Tight objcMarker := by decide

/-- White space behind a text does not bring the marker. -/
theorem objcMarker_infix_append_iff (hv : Text.isBlank v) :
    objcMarker <:+: p ++ v ↔ objcMarker <:+: p := by
  constructor
  · rintro ⟨x, y, e⟩
    obtain ⟨w, c, hw, hc⟩ := tight_objcMarker.exists_last
    rw [hw] at e ⊢
    obtain ⟨z, hz⟩ := Text.prefix_of_blank e.symm hc hv
    exact ⟨x, z, hz⟩
  · intro h
    exact h.trans (List.prefix_append p v).isInfix

/-- Before the first line that ends a section, there is an implementation section if there is one
before every such line. -/
theorem implementationFirst_of_leftmost (h : objcEnd.Leftmost t x) :
    objcMarker <:+: x ↔ ImplementationFirst t := by
  obtain ⟨w, b, e, hw⟩ := h.1
  have hend : EndLine x (w ++ b) := endLine_iff.mpr ⟨w, b, rfl, hw⟩
  have ht : t = x ++ (w ++ b) := by rw [e, List.append_assoc]
  constructor
  · intro hx
    refine ⟨fun x' y' e' hend' => ?_, fun hnone => absurd hend (hnone x _ ht)⟩
    obtain ⟨w', b', rfl, hw'⟩ := endLine_iff.mp hend'
    have hle := h.2 x' w' b' (by rw [e', List.append_assoc]) hw'
    have hprefix : x <+: x' := List.prefix_of_prefix_length_le ⟨_, ht.symm⟩ ⟨_, e'.symm⟩ hle
    exact hx.trans hprefix.isInfix
  · intro hfirst
    exact hfirst.ends x _ ht hend

/-- Where the method comes in, an implementation section lies before it if the text mentions one
first. -/
theorem infix_place_iff {a : Anchor} (ha : resolve? (bundleUrlStep payload).chain t = some a)
    (hat : PlaceAt t p q a.place) : objcMarker <:+: p ↔ ImplementationFirst t := by
  cases hfind : objcEnd.find? t with
  | some m =>
      obtain ⟨x, hleft, hstart⟩ := exists_leftmost flat_objcEnd hfind
      have hloc : (Locator.beforeLine objcEnd).find? t =
          some ⟨m.start, m.stop, t.lineStart m.start, t.indentAt (t.lineStart m.start)⟩ := by
        rw [Locator.find?, hfind]
        rfl
      have hanchor : resolve? (bundleUrlStep payload).chain t = some ⟨.closingMarker, "objc-end", _⟩ :=
        resolve?_cons_of_find? hloc
      obtain rfl := Option.some.inj (ha.symm.trans hanchor)
      -- The line starts where the match does.
      obtain ⟨w, b, e, hw⟩ := hleft.1
      have hline : t.lineStart m.start = x.length := by
        have hx := (spans_objcEnd_iff.mp hw).1
        have := Text.lineStart_append hx List.not_mem_nil (w ++ b)
        rw [List.append_nil, ← List.append_assoc, ← e] at this
        rw [hstart, this]
      have ht : t = x ++ (w ++ b) := by rw [e, List.append_assoc]
      obtain ⟨rfl, -⟩ := List.append_inj (hat.split.symm.trans ht) (hat.insertAt_eq.symm.trans hline)
      exact implementationFirst_of_leftmost hleft
  | none =>
      have hloc : (Locator.beforeLine objcEnd).find? t = none := by
        rw [Locator.find?, hfind]
        rfl
      have hnone : ∀ x y, t = x ++ y → ¬EndLine x y := by
        rintro x y rfl hend
        obtain ⟨w, b, rfl, hw⟩ := endLine_iff.mp hend
        exact (Pattern.find?_eq_none_iff flat_objcEnd).mp hfind x w b (List.append_assoc ..).symm hw
      have hrest : resolve? (bundleUrlStep payload).chain t =
          resolve? [Recognizer.lastBrace "last-brace"] t := resolve?_cons_of_none hloc
      rw [hrest] at ha
      obtain ⟨r, hr, hrec⟩ := exists_mem_of_resolve? ha
      obtain rfl := List.mem_singleton.mp hr
      obtain ⟨p', v, b, hat', hblank, -, hb⟩ := exists_edge_of_lastBrace (find?_of_recognize? hrec)
      obtain ⟨rfl, rfl⟩ := hat.unique hat'
      have ht : t = (p ++ v) ++ '}' :: b := by rw [hat.split, List.append_assoc]
      rw [← objcMarker_infix_append_iff hblank]
      constructor
      · intro hp
        refine ⟨fun x y e hend => absurd hend (hnone x y e), fun _ x y e hy => ?_⟩
        obtain ⟨rfl, -⟩ := Text.cons_append_inj hb hy (ht.symm.trans e)
        exact hp
      · intro hfirst
        exact hfirst.brace hnone _ _ ht hb

/-! ### The import before it -/

/-- A text that neither ends a section nor mentions an implementation, nor has closing braces. -/
structure Neutral (piece : Text) : Prop where
  noEnd : ¬endWord <:+: piece
  noMarker : ¬objcMarker <:+: piece
  noBrace : '}' ∉ piece

theorem Neutral.trim (h : Neutral piece) : Neutral piece.trim := by
  refine ⟨mt infix_of_infix_trim h.noEnd, mt infix_of_infix_trim h.noMarker, fun hmem => h.noBrace ?_⟩
  obtain ⟨v, v', e, -, -⟩ := Text.exists_trim piece
  rw [e]
  simp [hmem]

section Import

variable (h : Spliced piece p lead indent q t u)

include h

theorem objcMarker_behind_iff (hpiece : Neutral piece) (hq : q = r ++ y) :
    objcMarker <:+: p ++ inset lead indent piece ++ r ↔ objcMarker <:+: p ++ r := by
  subst hq
  exact h.left.infix_iff whole_objcMarker hpiece.noMarker

/-- A line that starts before the import does not reach into it. -/
theorem beginsEnd_before_iff (hline : AtLine p q) (hp : p = x ++ r) (hr : r ≠ []) :
    BeginsEnd (r ++ inset lead indent piece ++ q) ↔ BeginsEnd (r ++ q) := by
  by_cases hstart : AtLineStart p
  · rw [hp] at hstart
    rcases hstart.of_append hr with hnil | hlast
    · exact absurd hnil hr
    · obtain ⟨r0, rfl⟩ := List.getLast?_eq_some_iff.mp hlast
      have e : ∀ s, r0 ++ ['\n'] ++ s = r0 ++ '\n' :: s := fun s => by simp
      rw [List.append_assoc, e, e, beginsEnd_newline_iff, beginsEnd_newline_iff]
  · obtain rfl := hline.resolve_left hstart
    obtain ⟨s, hs⟩ := h.exists_newline hstart
    rw [hs, List.append_nil, List.append_nil, beginsEnd_newline_iff]

/-- No line of the import ends a section. -/
theorem not_beginsEnd_inside (hpiece : Neutral piece) (hr : r ≠ [])
    (hinset : inset lead indent piece = x ++ r) : ¬BeginsEnd (r ++ q) := by
  intro hbegins
  have hlast : r.getLast? = some '\n' := by
    have hend : (inset lead indent piece).getLast? = some '\n' := by
      unfold inset
      exact List.getLast?_concat
    rw [hinset] at hend
    rcases (Text.AtLineStart.of_append (.inr hend) hr) with hnil | hlast
    · exact absurd hnil hr
    · exact hlast
  obtain ⟨r0, rfl⟩ := List.getLast?_eq_some_iff.mp hlast
  rw [List.append_assoc, List.singleton_append, beginsEnd_newline_iff] at hbegins
  refine hpiece.noEnd (h.infix_of_inset whole_endWord ?_)
  rw [hinset]
  exact hbegins.holdsWord.trans ⟨x, ['\n'], by simp⟩

theorem exists_endLine_after (hline : AtLine p q) (hpiece : Neutral piece) (ht : t = x ++ y)
    (hend : EndLine x y) :
    ∃ x' y', u = x' ++ y' ∧ EndLine x' y' ∧ (objcMarker <:+: x' ↔ objcMarker <:+: x) := by
  obtain ⟨hx, hy⟩ := hend
  rcases Text.append_cases (h.source.symm.trans ht) with ⟨r, rfl, hq⟩ | ⟨r, hr, hp, rfl⟩
  · -- The line starts behind the import, or where it comes in.
    refine ⟨p ++ inset lead indent piece ++ r, y, ?_, ⟨?_, hy⟩, objcMarker_behind_iff h hpiece hq⟩
    · rw [h.target, hq, List.append_assoc _ r y]
    · by_cases hr : r = []
      · rw [hr, List.append_nil]
        unfold inset
        rw [← List.append_assoc]
        exact Text.atLineStart_newline _
      · exact (Text.atLineStart_append_iff hr).mpr (hx.of_append hr)
  · refine ⟨x, r ++ inset lead indent piece ++ q, ?_, ⟨hx, ?_⟩, Iff.rfl⟩
    · rw [h.target, hp]
      simp only [List.append_assoc]
    · exact (beginsEnd_before_iff h hline hp hr).mpr hy

theorem exists_endLine_before (hline : AtLine p q) (hpiece : Neutral piece) (hu : u = x ++ y)
    (hend : EndLine x y) :
    ∃ x' y', t = x' ++ y' ∧ EndLine x' y' ∧ (objcMarker <:+: x ↔ objcMarker <:+: x') := by
  obtain ⟨hx, hy⟩ := hend
  rcases Text.append_cases (h.target.symm.trans hu) with ⟨r, rfl, hq⟩ | ⟨r, hr, hp, rfl⟩
  · refine ⟨p ++ r, y, ?_, ⟨?_, hy⟩, objcMarker_behind_iff h hpiece hq⟩
    · rw [h.source, hq, List.append_assoc]
    · by_cases hr : r = []
      · rw [hr, List.append_nil]
        refine hline.resolve_right ?_
        rintro rfl
        obtain ⟨ind, z, e, -, -⟩ := hy
        rw [hr, List.nil_append] at hq
        rw [← hq] at e
        simp [endWord] at e
      · exact (Text.atLineStart_append_iff hr).mpr (hx.of_append hr)
  · rcases Text.append_cases hp with ⟨r', rfl, hinset⟩ | ⟨r', hr', rfl, rfl⟩
    · exact absurd hy (not_beginsEnd_inside h hpiece hr hinset)
    · refine ⟨x, r' ++ q, ?_, ⟨hx, ?_⟩, Iff.rfl⟩
      · rw [h.source, List.append_assoc]
      · exact (beginsEnd_before_iff h hline rfl hr').mp hy

/-- The import brings no closing brace. -/
theorem close_notMem_inset (hpiece : Neutral piece) : '}' ∉ inset lead indent piece := by
  intro hmem
  exact hpiece.noBrace (h.mem_of_mem_inset (by decide) hmem)

theorem exists_brace_after (hpiece : Neutral piece) (ht : t = x ++ '}' :: y) (hy : '}' ∉ y) :
    ∃ x' y', u = x' ++ '}' :: y' ∧ '}' ∉ y' ∧ (objcMarker <:+: x' ↔ objcMarker <:+: x) := by
  have e : x ++ '}' :: y = p ++ [] ++ q := by rw [← ht, h.source, List.append_nil]
  rcases Text.cases_of_cons_append e List.not_mem_nil with ⟨r, rfl, hq⟩ | ⟨r, hp, rfl⟩
  · rw [List.append_nil]
    refine ⟨p ++ inset lead indent piece ++ r, y, ?_, hy, objcMarker_behind_iff h hpiece hq⟩
    rw [h.target, hq, List.append_assoc _ r]
  · rw [List.append_nil, List.mem_append, not_or] at hy
    refine ⟨x, r ++ inset lead indent piece ++ q, ?_, ?_, Iff.rfl⟩
    · rw [h.target, hp]
      simp only [List.append_assoc, List.cons_append]
    · simp only [List.mem_append, not_or]
      exact ⟨⟨hy.1, close_notMem_inset h hpiece⟩, hy.2⟩

theorem exists_brace_before (hpiece : Neutral piece) (hu : u = x ++ '}' :: y) (hy : '}' ∉ y) :
    ∃ x' y', t = x' ++ '}' :: y' ∧ '}' ∉ y' ∧ (objcMarker <:+: x ↔ objcMarker <:+: x') := by
  rcases Text.cases_of_cons_append (hu.symm.trans h.target) (close_notMem_inset h hpiece) with
    ⟨r, rfl, hq⟩ | ⟨r, hp, rfl⟩
  · refine ⟨p ++ r, y, ?_, hy, objcMarker_behind_iff h hpiece hq⟩
    rw [h.source, hq, List.append_assoc]
  · simp only [List.mem_append, not_or] at hy
    refine ⟨x, r ++ q, ?_, ?_, Iff.rfl⟩
    · rw [h.source, hp]
      simp only [List.append_assoc, List.cons_append]
    · rw [List.mem_append, not_or]
      exact ⟨hy.1.1, hy.2⟩

/-- The import does not change what is mentioned first. -/
theorem implementationFirst_iff (hline : AtLine p q) (hpiece : Neutral piece) :
    ImplementationFirst u ↔ ImplementationFirst t := by
  constructor
  · intro hfirst
    refine ⟨fun x y e hend => ?_, fun hnone x y e hy => ?_⟩
    · obtain ⟨x', y', e', hend', hmarker⟩ := exists_endLine_after h hline hpiece e hend
      exact hmarker.mp (hfirst.ends x' y' e' hend')
    · obtain ⟨x', y', e', hy', hmarker⟩ := exists_brace_after h hpiece e hy
      refine hmarker.mp (hfirst.brace (fun x y e hend => ?_) x' y' e' hy')
      obtain ⟨x0, y0, e0, hend0, -⟩ := exists_endLine_before h hline hpiece e hend
      exact hnone x0 y0 e0 hend0
  · intro hfirst
    refine ⟨fun x y e hend => ?_, fun hnone x y e hy => ?_⟩
    · obtain ⟨x', y', e', hend', hmarker⟩ := exists_endLine_before h hline hpiece e hend
      exact hmarker.mpr (hfirst.ends x' y' e' hend')
    · obtain ⟨x', y', e', hy', hmarker⟩ := exists_brace_before h hpiece e hy
      refine hmarker.mpr (hfirst.brace (fun x y e hend => ?_) x' y' e' hy')
      obtain ⟨x0, y0, e0, hend0, -⟩ := exists_endLine_after h hline hpiece e hend
      exact hnone x0 y0 e0 hend0

end Import

/-! ### The method -/

/-- Into a delegate with an implementation section in which no form of the method is located, the
Objective-C method comes in, if any does; and it is behind the first mention of an implementation
section exactly when there is one before each line that ends a section, or before the last closing
brace if no line does. -/
theorem inserted_in_implementation_iff (himport : Neutral payload.iosImportObjc)
    (hmarker : objcMarker <:+: t) (sink : Sink) :
    let u := afterImport payload t sink
    let out := ((pipeline payload).run t sink).1
    (bundleUrlStep payload).located? u = none → out ≠ u →
      ∃ p lead indent q, Spliced payload.iosBundleUrlObjc p lead indent q u out ∧
        (objcMarker <:+: p ↔ ImplementationFirst t) := by
  intro u out hnone hne
  have hmarker' : objcMarker <:+: u := by
    rcases afterImport_cases payload t sink with e | ⟨p, lead, indent, q, -, hspliced⟩
    · rwa [← e] at hmarker
    · exact hspliced.infix_target whole_objcMarker.1 whole_objcMarker.2.1 hmarker
  have hfirst : ImplementationFirst u ↔ ImplementationFirst t := by
    rcases afterImport_cases payload t sink with e | ⟨p, lead, indent, q, hline, hspliced⟩
    · show ImplementationFirst (afterImport payload t sink) ↔ _
      rw [e]
    · rw [importIn_of_marker hmarker] at hspliced
      exact implementationFirst_iff hspliced hline himport.trim
  rcases MethodStep.apply_of_none_spliced (properChain_bundleUrlStep payload) hnone
    ((importStep payload).apply t sink).2 with e | ⟨body, a, p, lead, q, hbody, ha, hat, hspliced⟩
  · exact absurd e hne
  · rw [insertionBody?_eq, formIn_of_marker hmarker'] at hbody
    obtain rfl := Option.some.inj hbody
    exact ⟨p, lead, a.place.indent, q, hspliced, (infix_place_iff ha hat).trans hfirst⟩

/-- A delegate with an implementation section only. -/
def soleImplementation : Text :=
  "#import <CodePush/CodePush.h>\n@implementation A\n@end\n".toList

/-- The start of a delegate, up to the end of its interface. -/
def interfaceHead : Text :=
  "#import <CodePush/CodePush.h>\n@interface A\n".toList

/-- The rest of that delegate, with its implementation. -/
def interfaceTail : Text :=
  "@end\n@implementation A\n@end\n".toList

theorem inserted_in_implementation_iff_soleImplementation :
    ∃ p lead indent q, Spliced Payload.standard.iosBundleUrlObjc p lead indent q
      (afterImport .standard soleImplementation .empty)
      ((pipeline .standard).run soleImplementation .empty).1 ∧ objcMarker <:+: p := by
  have himport : Neutral Payload.standard.iosImportObjc := by
    refine ⟨?_, ?_, by decide⟩
    · rw [← Text.occursIn_iff]
      decide
    · rw [← Text.occursIn_iff]
      decide
  have hmarker : objcMarker <:+: soleImplementation := by
    rw [← Text.occursIn_iff]
    decide +kernel
  have hu : afterImport .standard soleImplementation .empty = soleImplementation :=
    afterImport_of_hasImport (by decide +kernel) _
  have hnone : (bundleUrlStep .standard).located? soleImplementation = none := by
    have hswift : Scope.find? swiftBundleUrl soleImplementation = none := by decide +kernel
    have hobjc : Scope.find? objcBundleUrl soleImplementation = none := by decide +kernel
    rw [located?_eq_ite, hswift, hobjc]
    rfl
  have hfirst : ImplementationFirst soleImplementation := by
    have hfind : objcEnd.find? soleImplementation = some ⟨48, 52, []⟩ := by decide +kernel
    obtain ⟨x, hleft, hstart⟩ := exists_leftmost flat_objcEnd hfind
    refine (implementationFirst_of_leftmost hleft).mp ?_
    rw [List.prefix_iff_eq_take.mp hleft.prefix, ← hstart, ← Text.occursIn_iff]
    decide +kernel
  obtain ⟨p, lead, indent, q, hspliced, hiff⟩ := inserted_in_implementation_iff himport hmarker
    .empty (by rw [hu]; exact hnone) (by decide +kernel)
  exact ⟨p, lead, indent, q, hspliced, hiff.mpr hfirst⟩

/-- The method comes in before the end of the interface. -/
theorem inserted_in_interface :
    objcMarker <:+: interfaceHead ++ interfaceTail ∧
      (bundleUrlStep .standard).located? (interfaceHead ++ interfaceTail) = none ∧
      ((pipeline .standard).run (interfaceHead ++ interfaceTail) .empty).1 =
        interfaceHead ++ '\n' :: Payload.standard.iosBundleUrlObjc ++ '\n' :: interfaceTail ∧
      ¬objcMarker <:+: interfaceHead := by
  have hswift : Scope.find? swiftBundleUrl (interfaceHead ++ interfaceTail) = none := by
    decide +kernel
  have hobjc : Scope.find? objcBundleUrl (interfaceHead ++ interfaceTail) = none := by
    decide +kernel
  simp only [← Text.occursIn_iff]
  refine ⟨by decide +kernel, ?_, by decide +kernel, by decide +kernel⟩
  rw [located?_eq_ite, hswift, hobjc]
  rfl

end Graft.Delegate
