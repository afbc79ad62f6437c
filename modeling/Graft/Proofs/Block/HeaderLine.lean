import Graft.Proofs.Block.Header
import Graft.Proofs.Brace.Matching

/-! # Which line opens a block

The look-up of a header goes over the lines of a text once and adds up the depth as it goes.
`find?_headerLine` says what it returns in terms of the text alone: the first header line at depth
zero, or else the first header line, whatever the braces of the text are. -/

namespace Graft

open Brace (depthAt)

/-- The line of the text that starts at position `start` has spaces and tabs, the name, spaces and
tabs, and then a brace; the brace is at position `brace`. -/
structure IsHeaderLine (name t : Text) (start brace : Nat) : Prop where
  exists_line : ∃ before ind gap rest after,
    t.pieces = before ++ (ind ++ name ++ gap ++ '{' :: rest) :: after ∧
      ind.all isIndent ∧ gap.all isIndent ∧ start = before.flatten.length ∧
      brace = start + (ind ++ name ++ gap).length

/-- Among the header lines the one at `start` is the first at depth zero, or the first of all if none
is at depth zero. -/
def IsSelected (name t : Text) (start : Nat) : Prop :=
  (depthAt t start = 0 ∧ ∀ s b, IsHeaderLine name t s b → depthAt t s = 0 → start ≤ s) ∨
    ((∀ s b, IsHeaderLine name t s b → depthAt t s ≠ 0) ∧
      ∀ s b, IsHeaderLine name t s b → start ≤ s)

variable {name t a ind gap rest : Text} {start brace : Nat}

/-- What stands before a header line is as deep as the position where the line starts. -/
theorem HeaderAt.depthAt_eq (h : HeaderAt name t a ind gap rest) :
    depthAt t a.length = Brace.depth a := by
  unfold Brace.depthAt
  rw [h.split, List.append_assoc, List.take_left]

theorem HeaderAt.indentAt_eq (h : HeaderAt name t a ind gap rest) : t.indentAt a.length = ind := by
  have hdrop : t.drop a.length = ind ++ (name ++ (gap ++ '{' :: rest)) := by
    rw [h.split]
    simp only [List.append_assoc, List.drop_left]
  unfold Text.indentAt
  rw [hdrop]
  exact leadingIndent_append h.allIndent fun c hc => h.indentEnds c (by rwa [head?_header] at hc)

theorem HeaderAt.isHeaderLine (h : HeaderAt name t a ind gap rest) :
    IsHeaderLine name t a.length (a ++ (ind ++ name ++ gap)).length := by
  obtain ⟨z, ls, hz⟩ := Text.exists_first_piece (y := rest) h.newline_notMem (c := '{') (by decide)
  refine ⟨a.pieces, ind, gap, z, ls, ?_, h.allIndent, h.allGap, ?_, ?_⟩
  · rw [h.split, List.append_assoc, Text.pieces_append h.lineStart, hz]
  · rw [Text.flatten_pieces]
  · rw [List.length_append]

/-- Where the indentation of a line ends when the name does not start with a space or tab.  A name
without characters leaves the whole white space to the indentation. -/
theorem exists_indentEnds (hname : ∀ c, name.head? = some c → isIndent c = false)
    (hind : ind.all isIndent) (hgap : gap.all isIndent) :
    ∃ ind' gap', ind ++ name ++ gap = ind' ++ name ++ gap' ∧ ind'.all isIndent ∧
      gap'.all isIndent ∧ ∀ c, (name ++ gap' ++ ['{']).head? = some c → isIndent c = false := by
  cases name with
  | nil =>
      refine ⟨ind ++ gap, [], by simp, ?_, rfl, fun c hc => ?_⟩
      · rw [List.all_append, hind, hgap]
        rfl
      · obtain rfl : '{' = c := by simpa using hc
        rfl
  | cons d name => exact ⟨ind, gap, rfl, hind, hgap, fun c hc => hname c hc⟩

theorem IsHeaderLine.exists_headerAt (hname : ∀ c, name.head? = some c → isIndent c = false)
    (h : IsHeaderLine name t start brace) :
    ∃ a ind gap rest, HeaderAt name t a ind gap rest ∧ a.length = start ∧
      (a ++ (ind ++ name ++ gap)).length = brace := by
  obtain ⟨before, ind, gap, rest, after, hpieces, hind, hgap, rfl, rfl⟩ := h.exists_line
  obtain ⟨ind', gap', heq, hind', hgap', hends⟩ := exists_indentEnds hname hind hgap
  rw [heq] at hpieces
  have hsplit := Text.flatten_pieces t
  rw [hpieces, List.flatten_append, List.flatten_cons] at hsplit
  have hnl := Text.newline_notMem_of_pieces hpieces
  simp only [List.mem_append, not_or] at hnl
  refine ⟨before.flatten, ind', gap', rest ++ after.flatten, ⟨?_, Text.atLineStart_of_pieces hpieces,
    hind', hgap', hends, hnl.1.2⟩, rfl, by rw [heq, List.length_append]⟩
  rw [← hsplit]
  simp

theorem preferred_iff_isSelected (hname : ∀ c, name.head? = some c → isIndent c = false)
    (h : HeaderAt name t a ind gap rest) : Preferred name t a ↔ IsSelected name t a.length := by
  -- a condition on all header lines, once by what stands before them and once by their positions
  have hall : ∀ p : Int → Nat → Prop, (∀ a', IsHeaderAt name t a' → p (Brace.depth a') a'.length) ↔
      ∀ s b, IsHeaderLine name t s b → p (depthAt t s) s := by
    intro p
    constructor
    · intro hp s b hs
      obtain ⟨a', ind', gap', rest', ha', rfl, -⟩ := hs.exists_headerAt hname
      rw [ha'.depthAt_eq]
      exact hp a' ha'.isHeaderAt
    · rintro hp a' ⟨ind', gap', rest', ha'⟩
      rw [← ha'.depthAt_eq]
      exact hp _ _ ha'.isHeaderLine
  unfold Preferred IsSelected
  rw [h.depthAt_eq]
  exact or_congr (and_congr_right fun _ => hall fun d n => d = 0 → a.length ≤ n)
    (and_congr (hall fun d _ => d ≠ 0) (hall fun _ n => a.length ≤ n))

/-- The look-up returns the first header line at depth zero, or else the first one, or nothing if the
text has none. -/
theorem find?_headerLine (hname : ∀ c, name.head? = some c → isIndent c = false) (t : Text) :
    (∀ h, BlockHeader.find? name t = some h ↔
      IsHeaderLine name t h.lineStart h.openAt ∧ IsSelected name t h.lineStart ∧
        h.indent = t.indentAt h.lineStart) ∧
    (BlockHeader.find? name t = none ↔ ∀ start brace, ¬IsHeaderLine name t start brace) := by
  constructor
  · intro h
    rw [find?_eq_some_iff]
    constructor
    · rintro ⟨a, ind, gap, rest, ha, hp, rfl⟩
      exact ⟨ha.isHeaderLine, (preferred_iff_isSelected hname ha).mp hp, ha.indentAt_eq.symm⟩
    · rintro ⟨hline, hselected, hindent⟩
      obtain ⟨a, ind, gap, rest, ha, hstart, hbrace⟩ := hline.exists_headerAt hname
      rw [← hstart] at hselected hindent
      rw [ha.indentAt_eq] at hindent
      refine ⟨a, ind, gap, rest, ha, (preferred_iff_isSelected hname ha).mpr hselected, ?_⟩
      unfold BlockHeader.of
      rw [hstart, hbrace, ← hindent]
  · rw [find?_eq_none_iff]
    constructor
    · intro hno start brace hline
      obtain ⟨a, ind, gap, rest, ha, -⟩ := hline.exists_headerAt hname
      exact hno a ha.isHeaderAt
    · rintro hno a ⟨ind, gap, rest, ha⟩
      exact hno _ _ ha.isHeaderLine

/-- A brace too many makes the first header line one below depth zero, so the second one counts. -/
theorem find?_headerLine_negativeDepth :
    (∀ c, ['x'].head? = some c → isIndent c = false) ∧
      IsHeaderLine ['x'] "\x7d\nx \x7b\n\tx\x7b\n".toList 6 8 ∧
      IsSelected ['x'] "\x7d\nx \x7b\n\tx\x7b\n".toList 6 := by
  have hname : ∀ c, ['x'].head? = some c → isIndent c = false := by simp [isIndent]
  have hfind : BlockHeader.find? ['x'] "\x7d\nx \x7b\n\tx\x7b\n".toList = some ⟨6, ['\t'], 8⟩ := by
    decide
  obtain ⟨hline, hselected, -⟩ := ((find?_headerLine hname _).1 _).mp hfind
  exact ⟨hname, hline, hselected⟩

end Graft
