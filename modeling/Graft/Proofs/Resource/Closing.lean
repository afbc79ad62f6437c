import Graft.Proofs.Text.Change
import Graft.Proofs.Text.Line
import Graft.Resource.Basic

/-! # Lines before a closing tag

New lines go before the last occurrence of a closing tag, or before its line if there is nothing
else in front of it (`exists_ending`).  Lines that are put there leave the place as it is, so that
further lines go behind them (`Ending.closingTagPos_eq`). -/

namespace Graft

namespace Text

variable {w t a b l r : Text}

/-! ### The last occurrence of a word -/

theorem findLast?_eq_none_iff : findLast? w t = none ↔ ¬w <:+: t := by
  induction t with
  | nil => cases w <;> simp [findLast?]
  | cons c t ih =>
      rw [findLast?, List.infix_cons_iff, ← List.isPrefixOf_iff_prefix]
      cases h : findLast? w t with
      | none =>
          have hnot := ih.mp h
          simp [hnot]
      | some n =>
          have hin : w <:+: t := by
            refine Classical.byContradiction fun hnot => ?_
            rw [ih.mpr hnot] at h
            exact nomatch h
          simp [hin]

/-- The word occurs behind `a`, and nowhere further behind. -/
structure LastAt (w t a b : Text) : Prop where
  split : t = a ++ w ++ b
  last : ∀ x y, t = x ++ w ++ y → x.length ≤ a.length

theorem LastAt.findLast? (hne : w ≠ []) (h : LastAt w t a b) : findLast? w t = some a.length := by
  induction a generalizing t with
  | nil =>
      obtain ⟨rfl, hlast⟩ := h
      cases w with
      | nil => exact absurd rfl hne
      | cons c w =>
          have hnone : findLast? (c :: w) (w ++ b) = none := by
            refine findLast?_eq_none_iff.mpr ?_
            rintro ⟨x, y, e⟩
            have := hlast (c :: x) y (by simp [← e])
            simp at this
          rw [List.nil_append, List.cons_append, Text.findLast?, hnone]
          simp [List.isPrefixOf_iff_prefix]
  | cons c a ih =>
      obtain ⟨rfl, hlast⟩ := h
      have hrest : LastAt w (a ++ w ++ b) a b := by
        refine ⟨rfl, fun x y e => ?_⟩
        have := hlast (c :: x) y (by simp [e])
        simpa using this
      rw [List.cons_append, List.cons_append, Text.findLast?, ih hrest]
      rfl

theorem exists_lastAt (hne : w ≠ []) (h : w <:+: t) : ∃ a b, LastAt w t a b := by
  induction t with
  | nil => exact absurd (List.infix_nil.mp h) hne
  | cons c t ih =>
      by_cases hin : w <:+: t
      · obtain ⟨a, b, rfl, hlast⟩ := ih hin
        refine ⟨c :: a, b, by simp, fun x y e => ?_⟩
        cases x with
        | nil => exact Nat.zero_le _
        | cons d x =>
            obtain ⟨-, e⟩ := List.cons.inj e
            exact Nat.succ_le_succ (hlast x y e)
      · rcases List.infix_cons_iff.mp h with ⟨b, hb⟩ | hin'
        · refine ⟨[], b, hb.symm, fun x y e => ?_⟩
          cases x with
          | nil => exact Nat.zero_le _
          | cons d x =>
              obtain ⟨-, e⟩ := List.cons.inj e
              exact absurd ⟨x, y, e.symm⟩ hin
        · exact absurd hin' hin

theorem exists_lastAt_of_findLast? {n : Nat} (hne : w ≠ []) (h : findLast? w t = some n) :
    ∃ a b, LastAt w t a b ∧ n = a.length := by
  have hin : w <:+: t := by
    refine Classical.byContradiction fun hnot => ?_
    rw [findLast?_eq_none_iff.mpr hnot] at h
    exact nomatch h
  obtain ⟨a, b, hat⟩ := exists_lastAt hne hin
  rw [hat.findLast? hne] at h
  exact ⟨a, b, hat, (Option.some.inj h).symm⟩

end Text

namespace Markup

open Text (AtLineStart LastAt)

variable {tag t a back new : Text}

/-- A text that begins with the place before its last closing tag. -/
def Ending (tag back : Text) : Prop :=
  ∃ w z, back = w ++ tag ++ z ∧ w.isBlank ∧ '\n' ∉ w ∧ ∀ x y, tag ++ z = x ++ tag ++ y → x = []

theorem Ending.closingTagPos_eq (hne : tag ≠ []) (h : Ending tag back) (ha : AtLineStart a) :
    closingTagPos tag (a ++ back) = a.length := by
  obtain ⟨w, z, rfl, hw, hnl, hlast⟩ := h
  have hat : LastAt tag (a ++ (w ++ tag ++ z)) (a ++ w) z := by
    refine ⟨by simp, fun x y e => Nat.le_of_not_lt fun hlt => ?_⟩
    have hpre : a ++ w <+: x := by
      have hx : x <+: a ++ (w ++ tag ++ z) := ⟨tag ++ y, by rw [e, List.append_assoc]⟩
      exact List.prefix_of_prefix_length_le ⟨tag ++ z, by simp⟩ hx (Nat.le_of_lt hlt)
    obtain ⟨x', rfl⟩ := hpre
    have hx : x' = [] := hlast x' y (by simpa using e)
    rw [hx, List.append_nil] at hlt
    exact Nat.lt_irrefl _ hlt
  have htext : a ++ (w ++ tag ++ z) = a ++ w ++ (tag ++ z) := by simp
  rw [closingTagPos, hat.findLast? hne]
  simp only [Option.getD_some]
  rw [htext, Text.lineStart_append ha hnl, List.length_append]
  have hslice := Text.slice_append a w (tag ++ z)
  rw [hslice, if_pos hw]

/-- The place before the last closing tag. -/
theorem exists_ending (hne : tag ≠ []) (h : tag <:+: t) :
    ∃ a back, t = a ++ back ∧ closingTagPos tag t = a.length ∧ Ending tag back := by
  obtain ⟨c, b, hat⟩ := Text.exists_lastAt hne h
  obtain ⟨a, l, rfl, ha, hl⟩ := Text.exists_lineStart c
  have hfirst : ∀ x y, tag ++ b = x ++ tag ++ y → x = [] := by
    intro x y e
    have := hat.last (a ++ l ++ x) y (by rw [hat.split, List.append_assoc, e]; simp)
    simp only [List.length_append] at this
    exact List.eq_nil_of_length_eq_zero (by omega)
  have htext : t = a ++ l ++ (tag ++ b) := by rw [hat.split, List.append_assoc]
  by_cases hblank : l.isBlank
  · have hending : Ending tag (l ++ tag ++ b) := ⟨l, b, rfl, hblank, hl, hfirst⟩
    refine ⟨a, l ++ tag ++ b, by rw [hat.split]; simp, ?_, hending⟩
    rw [← hending.closingTagPos_eq hne ha, hat.split]
    simp
  · refine ⟨a ++ l, tag ++ b, htext, ?_, [], b, rfl, rfl, List.not_mem_nil, hfirst⟩
    rw [closingTagPos, hat.findLast? hne]
    simp only [Option.getD_some]
    rw [htext, Text.lineStart_append ha hl, List.length_append, Text.slice_append a l (tag ++ b),
      if_neg hblank]

/-- What comes before new lines so that they start on a line of their own. -/
def newline (a : Text) : Text := if a.isEmpty || a.getLast? = some '\n' then [] else ['\n']

theorem isBlank_newline (a : Text) : (newline a).isBlank := by
  rw [newline]
  split <;> decide

theorem newline_of_atLineStart (h : AtLineStart a) : newline a = [] := by
  rcases h with rfl | h
  · rfl
  · simp [newline, h]

theorem insertLines_append (a back new : Text) :
    insertLines (a ++ back) a.length new = a ++ newline a ++ new ++ back := by
  rw [insertLines, List.take_left, List.drop_left, newline]

theorem Ending.tag_infix (h : Ending tag back) : tag <:+: back := by
  obtain ⟨w, z, rfl, -⟩ := h
  exact ⟨w, z, rfl⟩

/-! ### Escaped texts -/

/-- A text without the characters that tags are written with. -/
def Tagless (t : Text) : Prop := '<' ∉ t ∧ '>' ∉ t

theorem tagless_escape (t : Text) : Tagless (escape t) := by
  constructor
  all_goals
    rw [escape, List.mem_flatMap]
    rintro ⟨c, -, h⟩
    split at h
    · simp at h
    · simp at h
    · simp at h
    · next hlt hgt => exact absurd (List.mem_singleton.mp h).symm (by assumption)

end Markup

end Graft
