import Graft.Proofs.Pattern.Plain
import Graft.Proofs.Text.Apart

/-! # Patterns of words

A pattern that is made of words with white space between them matches the same characters
everywhere, white space aside (`Squeezes`).  So whether its matches keep away from a text is decided
by looking at the words (`Squeezes.untouched`). -/

namespace Graft.Pattern

open Text (squeeze Tight apart)

variable {p : Pattern} {a u b w t before old after : Text} {s : String}

/-- What is left of each match without its white space, and that a match starts and ends with
something else. -/
def Squeezes (p : Pattern) (w : Text) : Prop :=
  ∀ a u b, p.Spans a u b → squeeze u = w ∧ Tight u

/-- A word without white space. -/
def Compact (w : Text) : Prop := squeeze w = w ∧ Tight w

instance (w : Text) : Decidable (Compact w) := inferInstanceAs (Decidable (_ ∧ _))

theorem squeezes_lit (hs : Compact s.toList) : (lit s).Squeezes s.toList := by
  intro a u b hu
  obtain rfl := spans_lit.mp hu
  exact hs

theorem tight_append {u v x : Text} (hu : Tight u) (hx : Tight x) : Tight (u ++ v ++ x) := by
  obtain ⟨c, u', rfl, hc⟩ := hu.exists_head
  obtain ⟨x', d, rfl, hd⟩ := hx.exists_last
  exact ⟨by simp [hc], by rw [← List.append_assoc, List.getLast?_concat]; simp [hd]⟩

theorem Squeezes.blanks_lit (h : p.Squeezes w) (hs : Compact s.toList) :
    (p ++ blanks ++ lit s).Squeezes (w ++ s.toList) := by
  rintro a _ b ⟨_, x, rfl, ⟨v, g, rfl, hv, hg⟩, hx⟩
  obtain rfl := spans_lit.mp hx
  obtain ⟨e, ht⟩ := h _ _ _ hv
  rw [Text.squeeze_append, Text.squeeze_append, e, Text.squeeze_of_isBlank (spans_blanks.mp hg), hs.1,
    List.append_nil]
  exact ⟨rfl, tight_append ht hs.2⟩

theorem Squeezes.blanks1_lit (h : p.Squeezes w) (hs : Compact s.toList) :
    (p ++ blanks1 ++ lit s).Squeezes (w ++ s.toList) := by
  rintro a _ b ⟨_, x, rfl, ⟨v, g, rfl, hv, hg⟩, hx⟩
  obtain rfl := spans_lit.mp hx
  obtain ⟨e, ht⟩ := h _ _ _ hv
  rw [Text.squeeze_append, Text.squeeze_append, e, Text.squeeze_of_isBlank (spans_blanks1.mp hg).2,
    hs.1, List.append_nil]
  exact ⟨rfl, tight_append ht hs.2⟩

/-- The pattern can take the text wherever it stands. -/
def Takes (p : Pattern) (u : Text) : Prop := ∀ a b, p.Spans a u b

theorem takes_lit : (lit s).Takes s.toList := fun _ _ => spans_lit.mpr rfl

theorem Takes.blanks_lit {g : Text} (h : p.Takes u) (hg : Text.isBlank g) :
    (p ++ blanks ++ lit s).Takes (u ++ g ++ s.toList) := fun _ _ =>
  ⟨u ++ g, s.toList, rfl, ⟨u, g, rfl, h _ _, spans_blanks.mpr hg⟩, spans_lit.mpr rfl⟩

theorem Takes.blanks1_lit {g : Text} (h : p.Takes u) (hg : g ≠ [] ∧ Text.isBlank g) :
    (p ++ blanks1 ++ lit s).Takes (u ++ g ++ s.toList) := fun _ _ =>
  ⟨u ++ g, s.toList, rfl, ⟨u, g, rfl, h _ _, spans_blanks1.mpr hg⟩, spans_lit.mpr rfl⟩

/-- No match overlaps a text from which its words are apart. -/
theorem Squeezes.untouched (h : p.Squeezes w) (ha : apart w (squeeze old)) :
    p.Untouched before old after := by
  intro a u b e hu
  obtain ⟨rfl, ht⟩ := h a u b hu
  exact Text.length_le_of_squeeze ha ht e

/-- At one place there is one match at most. -/
theorem Squeezes.unique {u' b' : Text} (h : p.Squeezes w) (hu : p.Spans a u b)
    (hu' : p.Spans a u' b') (e : u ++ b = u' ++ b') : u = u' := by
  obtain ⟨hs, ht⟩ := h a u b hu
  obtain ⟨hs', ht'⟩ := h a u' b' hu'
  have hnil : squeeze [] = [] := rfl
  have hle := Text.length_le_of_squeeze_left (x := []) ht' e (by simp [hs, hs', hnil])
  have hle' := Text.length_le_of_squeeze_left (x := []) ht e.symm (by simp [hs, hs', hnil])
  simp only [List.length_nil, Nat.zero_add] at hle hle'
  exact (List.append_inj e (Nat.le_antisymm hle' hle)).1

theorem Squeezes.not_spans_nil (h : p.Squeezes w) : ¬p.Spans a [] b := by
  intro hu
  have := (h a [] b hu).2.1
  simp at this

end Graft.Pattern
