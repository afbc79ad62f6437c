import Graft.Proofs.Resource.PropertyList
import Graft.Proofs.Resource.Scan
import Graft.Proofs.Resource.Tag

/-! # Keys that wait for a string

The pattern finds a key with a string right behind it.  Texts in which neither a key nor a string begins
keep quiet what follows them (`Inert.sealed`), and so does a string (`sealed_string`).  Behind a key it
depends on what comes next: anything but white space and a string makes the pattern give up the key
(`Held.append`). -/

namespace Graft.PropertyList

open Markup (Form run_inj breaks_cons Breaks)

variable {a b g k s t u v w x y : Text} {c : Char} {p : Option Text}

/-- Neither a key nor a string begins in the text. -/
def Inert (t : Text) : Prop := ¬keyStart <:+: t ∧ ¬stringStart <:+: t

instance (t : Text) : Decidable (Inert t) :=
  decidable_of_iff (¬keyStart.occursIn t ∧ ¬stringStart.occursIn t)
    (by rw [Inert, Text.occursIn_iff, Text.occursIn_iff])

theorem not_infix_cons (hc : c ≠ '<') (h : ¬('<' :: w) <:+: t) : ¬('<' :: w) <:+: c :: t := by
  rw [List.infix_cons_iff, not_or]
  exact ⟨fun hpre => hc (List.cons_prefix_cons.mp hpre).1.symm, h⟩

theorem not_infix_append (hu : '<' ∉ u) (h : ¬('<' :: w) <:+: t) : ¬('<' :: w) <:+: u ++ t := by
  induction u with
  | nil => exact h
  | cons c u ih =>
      rw [List.mem_cons, not_or] at hu
      exact not_infix_cons (Ne.symm hu.1) (ih hu.2)

theorem Inert.append_left (h : Inert t) (hu : '<' ∉ u) : Inert (u ++ t) :=
  ⟨not_infix_append hu h.1, not_infix_append hu h.2⟩

theorem inert_of_notMem (h : '<' ∉ t) : Inert t := by
  have := (show Inert [] by decide).append_left h
  rwa [List.append_nil] at this

/-- A text with one bracket is inert if it is not the start of a key or of a string. -/
theorem inert_bracket (hbare : '<' ∉ t) (hkey : ¬keyStart <+: '<' :: t)
    (hstring : ¬stringStart <+: '<' :: t) : Inert ('<' :: t) := by
  have hrest := inert_of_notMem hbare
  constructor
  · rw [List.infix_cons_iff, not_or]
    exact ⟨hkey, hrest.1⟩
  · rw [List.infix_cons_iff, not_or]
    exact ⟨hstring, hrest.2⟩

theorem Inert.quiet (h : Inert t) : Quiet t := by
  constructor
  · rintro x y rfl
    exact absurd ⟨x, y, rfl⟩ h.2
  · rintro x i y - rfl
    refine h.1 ⟨x, i.key ++ keyEnd ++ i.space ++ stringStart ++ y, ?_⟩
    simp [Pair.head]

/-! ### Texts that keep quiet -/

theorem sealed_char (hc : c ≠ '<') : form.Sealed [c] := by
  intro g hg
  constructor
  · rintro (_ | ⟨d, x⟩) y e
    · exact absurd (List.cons.inj e).1 hc
    · exact hg.closed x y (List.cons.inj e).2
  · rintro (_ | ⟨d, x⟩) i y hi e
    · exact absurd (List.cons.inj e).1 hc
    · exact hg.noHead x i y hi (List.cons.inj e).2

theorem sealed_of_notMem (h : '<' ∉ t) : form.Sealed t := by
  induction t with
  | nil => exact Markup.Form.sealed_nil
  | cons c t ih =>
      rw [List.mem_cons, not_or] at h
      exact (sealed_char (Ne.symm h.1)).append (ih h.2)

/-- What the text does not hold begins behind the end of its last tag. -/
theorem behind_of_not_infix (hlast : t.getLast? = some '>') (hw : '>' ∉ w) (h : ¬w ++ ['>'] <:+: t)
    (e : t ++ g = x ++ (w ++ ['>']) ++ y) : ∃ r, x = t ++ r ∧ g = r ++ (w ++ ['>']) ++ y := by
  obtain ⟨r, hr, -⟩ | hr | ⟨v, z, hv, hz, hvz, ht, -⟩ := Text.cut_cases e
  · exact absurd ⟨x, r, hr.symm⟩ h
  · exact hr
  · -- the tag would have to end inside the word
    refine absurd ?_ hw
    rw [ht, List.getLast?_append, List.getLast?_eq_some_getLast hv, Option.some_or] at hlast
    obtain ⟨z, d, rfl⟩ := List.eq_nil_or_concat z |>.resolve_left hz
    have hinit : w = v ++ z := by
      rw [List.concat_eq_append, ← List.append_assoc] at hvz
      exact (List.append_inj' hvz rfl).1
    rw [hinit, ← Option.some.inj hlast]
    exact List.mem_append_left _ (List.getLast_mem hv)

theorem Inert.sealed (h : Inert t) (hlast : t.getLast? = some '>') : form.Sealed t := by
  intro g hg
  constructor
  · intro x y e
    obtain ⟨r, rfl, rfl⟩ := behind_of_not_infix (w := ['<', 's', 't', 'r', 'i', 'n', 'g']) hlast
      (by decide) h.2 e
    exact hg.closed r y rfl
  · intro x i y hi e
    have e' : t ++ g = x ++ keyStart ++ (i.key ++ keyEnd ++ i.space ++ stringStart ++ y) := by
      rw [e]
      simp [Pair.head]
    obtain ⟨r, rfl, rfl⟩ := behind_of_not_infix (w := ['<', 'k', 'e', 'y']) hlast (by decide) h.1 e'
    exact hg.noHead r i y hi (by simp [Pair.head, keyStart])

/-- A string without a key. -/
theorem sealed_string (hv : '<' ∉ v) : form.Sealed (stringStart ++ v ++ stringEnd) := by
  intro g hg
  have hinert : Inert (['s', 't', 'r', 'i', 'n', 'g', '>'] ++ v ++ stringEnd) :=
    (show Inert stringEnd by decide).append_left (by simp [hv])
  have hrest := hinert.sealed (by rw [List.getLast?_append]; rfl) g hg
  constructor
  · rintro (_ | ⟨d, x⟩) y e
    · refine ⟨v, g, ?_, hv⟩
      have e' : stringStart ++ (v ++ stringEnd ++ g) = stringStart ++ y := by simpa using e
      exact (List.append_cancel_left e').symm
    · exact hrest.closed x y (List.cons.inj e).2
  · rintro (_ | ⟨d, x⟩) i y hi e
    · have e' : ['s', 't', 'r', 'i', 'n', 'g', '>'] ++ v ++ stringEnd ++ g =
          'k' :: (['e', 'y', '>'] ++ i.key ++ keyEnd ++ i.space ++ stringStart ++ y) :=
        (List.cons.inj e).2
      exact absurd (List.cons.inj e').1 (by decide)
    · exact hrest.noHead x i y hi (List.cons.inj e).2

/-! ### Keys -/

/-- The text of a key element with white space behind it. -/
def keyText (k s : Text) : Text := keyStart ++ k ++ keyEnd ++ s

/-- A key at the end of a text that has been scanned, if there is one that waits for its string. -/
inductive Held : Option Text → Text → Prop where
  | sealed (a : Text) : form.Sealed a → Held none a
  | key (b k s : Text) : form.Sealed b → k ≠ [] → k.trim = k → '<' ∉ k → s.isBlank →
      Held (some k) (b ++ keyText k s)

/-- No string follows the key. -/
theorem sealed_key (hk : '<' ∉ k) (hs : s.isBlank) (ht : form.Sealed (c :: t))
    (hc : Graft.isBlank c = false) (hno : ∀ g, ¬stringStart <+: c :: t ++ g) :
    form.Sealed (keyText k s ++ c :: t) := by
  intro g hg
  have hspace : '<' ∉ s := fun hmem => absurd (List.all_eq_true.mp hs '<' hmem) (by decide)
  have hinert : Inert (['k', 'e', 'y', '>'] ++ k ++ keyEnd) :=
    (show Inert keyEnd by decide).append_left (by simp [hk])
  have hend := (hinert.sealed (by rw [List.getLast?_append]; rfl)).append (sealed_of_notMem hspace)
  have hrest := (hend.append ht) g hg
  have etext : keyText k s ++ c :: t ++ g =
      '<' :: (['k', 'e', 'y', '>'] ++ k ++ keyEnd ++ s ++ c :: t ++ g) := by
    simp [keyText, keyStart]
  rw [etext]
  constructor
  · rintro (_ | ⟨d, x⟩) y e
    · have e' : 'k' :: (['e', 'y', '>'] ++ k ++ keyEnd ++ s ++ c :: t ++ g) =
          's' :: (['t', 'r', 'i', 'n', 'g', '>'] ++ y) := (List.cons.inj e).2
      exact absurd (List.cons.inj e').1 (by decide)
    · exact hrest.closed x y (List.cons.inj e).2
  · rintro (_ | ⟨d, x⟩) i y hi e
    · -- the key would be that of the pair, with what follows as its string
      have e1 : k ++ '<' :: (['/', 'k', 'e', 'y', '>'] ++ (s ++ (c :: t ++ g))) =
          i.key ++ '<' :: (['/', 'k', 'e', 'y', '>'] ++ (i.space ++ (stringStart ++ y))) := by
        have e' : keyStart ++ (k ++ (keyEnd ++ (s ++ (c :: t ++ g)))) =
            keyStart ++ (i.key ++ (keyEnd ++ (i.space ++ (stringStart ++ y)))) := by
          simpa [Pair.head, keyStart] using e
        exact List.append_cancel_left e'
      obtain ⟨-, e2⟩ := Text.append_cons_inj hk hi.key e1
      obtain ⟨-, e3⟩ := run_inj hs hi.space (breaks_cons hc _) (breaks_cons (by decide) _)
        (List.append_cancel_left e2)
      exact hno g ⟨y, e3.symm⟩
    · exact hrest.noHead x i y hi (List.cons.inj e).2

theorem Held.append (h : Held p a) (ht : form.Sealed (c :: t)) (hc : Graft.isBlank c = false)
    (hno : ∀ g, ¬stringStart <+: c :: t ++ g) : form.Sealed (a ++ c :: t) := by
  cases h with
  | sealed _ ha => exact ha.append ht
  | key b k s hb _ _ hk hs =>
      rw [List.append_assoc]
      exact hb.append (sealed_key hk hs ht hc hno)

end Graft.PropertyList
