import Graft.Proofs.Text.Tight

/-! # Words that cannot overlap

Two words are apart in every text when neither can start inside the other one, which can be decided
by looking at the two words alone (`length_le_of_apart`).  White space does not count: it is enough
that what `squeeze` leaves of the words is apart, if the word that moves neither starts nor ends with
white space (`length_le_of_squeeze`). -/

namespace Graft.Text

/-- Whether the word can start at some place in the text, and run on behind it. -/
def startsIn (u : Text) : Text → Bool
  | [] => false
  | c :: w => u.isPrefixOf (c :: w) || (c :: w).isPrefixOf u || startsIn u w

/-- Whether neither word can start inside the other. -/
def apart (u w : Text) : Bool := !startsIn u w && !startsIn w u

/-- What is left of a text without its white space. -/
def squeeze (t : Text) : Text := t.filter fun c => !Graft.isBlank c

variable {u w x y z before after s t : Text}

theorem startsIn_of_suffix (hz : z ≠ []) (h : u <+: z ∨ z <+: u) : startsIn u (y ++ z) := by
  induction y with
  | nil =>
      cases z with
      | nil => exact absurd rfl hz
      | cons c z =>
          rw [List.nil_append, startsIn, Bool.or_eq_true, Bool.or_eq_true,
            List.isPrefixOf_iff_prefix, List.isPrefixOf_iff_prefix]
          exact .inl h
  | cons c y ih =>
      rw [List.cons_append, startsIn, ih, Bool.or_true]

theorem apart_comm : apart u w = apart w u := by
  rw [apart, apart, Bool.and_comm]

/-- A word cannot start where a piece of it cannot. -/
theorem startsIn_append_left (h : startsIn u t = false) (v : Text) : startsIn (u ++ v) t = false := by
  induction t with
  | nil => rfl
  | cons c t ih =>
      simp only [startsIn, Bool.or_eq_false_iff] at h ⊢
      obtain ⟨⟨h1, h2⟩, h3⟩ := h
      refine ⟨⟨?_, ?_⟩, ih h3⟩
      · rw [← Bool.not_eq_true, List.isPrefixOf_iff_prefix] at h1 ⊢
        exact fun h => h1 ((List.prefix_append u v).trans h)
      · rw [← Bool.not_eq_true, List.isPrefixOf_iff_prefix] at h1 h2 ⊢
        intro h
        rcases List.prefix_or_prefix_of_prefix h (List.prefix_append u v) with h | h
        · exact h2 h
        · exact h1 h

/-- A word with a character that the text lacks can start in the text only where the end of the text
is inside the word. -/
theorem startsIn_append_right {c : Char} (hc : c ∈ u) (hy : c ∉ y ++ z) (hz : startsIn u z = false)
    (hin : ¬z <:+: u) : startsIn u (y ++ z) = false := by
  induction y with
  | nil => exact hz
  | cons d y ih =>
      rw [List.cons_append, startsIn, Bool.or_eq_false_iff, Bool.or_eq_false_iff]
      refine ⟨⟨?_, ?_⟩, ih fun h => hy (List.mem_cons_of_mem d h)⟩
      · rw [← Bool.not_eq_true, List.isPrefixOf_iff_prefix]
        exact fun h => hy (h.subset hc)
      · rw [← Bool.not_eq_true, List.isPrefixOf_iff_prefix]
        rintro ⟨s, h⟩
        exact hin ⟨d :: y, s, by simpa using h⟩

/-- Words that are apart do not overlap. -/
theorem length_le_of_apart (h : apart u w) (e : before ++ w ++ after = x ++ u ++ y) :
    x.length + u.length ≤ before.length ∨ before.length + w.length ≤ x.length := by
  rw [apart, Bool.and_eq_true, Bool.not_eq_true', Bool.not_eq_true'] at h
  rw [List.append_assoc, List.append_assoc] at e
  have hoverlap : ∀ {u w r s : Text}, startsIn u w = false → ∀ z z', w = z ++ z' → z' ≠ [] →
      z' ++ r = u ++ s → False := by
    intro u w r s hu z z' hw hz' hr
    have hprefix : u <+: z' ∨ z' <+: u :=
      (List.prefix_or_prefix_of_prefix ⟨r, rfl⟩ ⟨s, hr.symm⟩).symm
    rw [hw, startsIn_of_suffix hz' hprefix] at hu
    simp at hu
  rcases List.append_eq_append_iff.mp e with ⟨z, rfl, hz⟩ | ⟨z, rfl, hz⟩
  · -- The word `u` starts at `before` or behind it.
    rcases List.append_eq_append_iff.mp hz with ⟨v, rfl, -⟩ | ⟨v, hv, hrest⟩
    · exact .inr (by simp)
    · by_cases hv0 : v = []
      · exact .inr (by simp [hv, hv0])
      · exact (hoverlap h.1 z v hv hv0 hrest.symm).elim
  · rcases List.append_eq_append_iff.mp hz with ⟨v, rfl, -⟩ | ⟨v, hv, hrest⟩
    · exact .inl (by simp)
    · by_cases hv0 : v = []
      · exact .inl (by simp [hv, hv0])
      · exact (hoverlap h.2 z v hv hv0 hrest.symm).elim

/-! ### White space aside -/

theorem squeeze_append (s t : Text) : squeeze (s ++ t) = squeeze s ++ squeeze t := List.filter_append ..

theorem squeeze_prefix (h : s <+: t) : squeeze s <+: squeeze t := h.filter _

theorem squeeze_of_isBlank (h : isBlank t) : squeeze t = [] := by
  rw [squeeze, List.filter_eq_nil_iff]
  intro c hc
  rw [List.all_eq_true.mp h c hc]
  simp

theorem count_squeeze {c : Char} (hb : Graft.isBlank c = false) (t : Text) :
    (squeeze t).count c = t.count c := List.count_filter (by rw [hb]; rfl)

theorem length_squeeze_pos {c : Char} (hc : c ∈ t) (hb : Graft.isBlank c = false) :
    0 < (squeeze t).length := by
  refine List.length_pos_of_mem (List.mem_filter.mpr ⟨hc, ?_⟩)
  rw [hb]
  rfl

/-- A tight word ends where the text does when it has no more than the characters of the text. -/
theorem length_le_of_squeeze_left (hu : Tight u) (e : before ++ after = x ++ u ++ y)
    (h : (squeeze x).length + (squeeze u).length ≤ (squeeze before).length) :
    x.length + u.length ≤ before.length := by
  refine Nat.le_of_not_lt fun hlt => ?_
  -- The last character of `u` would be behind `before`.
  obtain ⟨v, c, rfl, hc⟩ := hu.exists_last
  have hpre : before <+: x ++ v := by
    refine List.prefix_of_prefix_length_le ⟨after, e⟩ ⟨[c] ++ y, by simp⟩ ?_
    simp only [List.length_append, List.length_cons, List.length_nil] at hlt ⊢
    omega
  obtain ⟨z, hz⟩ := hpre
  have hcount := congrArg (fun t => (squeeze (t ++ [c])).length) hz
  have hpos := length_squeeze_pos (t := z ++ [c])
    (List.mem_append_right _ (List.mem_singleton_self c)) hc
  simp only [List.append_assoc, squeeze_append, List.length_append] at hcount h hpos
  omega

/-- A tight word starts where the text ends or later when all characters of the text are before
it. -/
theorem length_le_of_squeeze_right (hu : Tight u) (e : before ++ after = x ++ u ++ y)
    (h : (squeeze before).length ≤ (squeeze x).length) : before.length ≤ x.length := by
  refine Nat.le_of_not_lt fun hlt => ?_
  -- The first character of `u` would be in `before`.
  obtain ⟨c, v, rfl, hc⟩ := hu.exists_head
  have hpre : x ++ [c] <+: before := by
    refine List.prefix_of_prefix_length_le ⟨v ++ y, by rw [e]; simp⟩ ⟨after, rfl⟩ ?_
    simp only [List.length_append, List.length_cons, List.length_nil]
    omega
  obtain ⟨z, hz⟩ := hpre
  have hcount := congrArg (fun t => (squeeze t).length) hz
  have hpos := length_squeeze_pos (t := [c]) (List.mem_singleton_self c) hc
  simp only [squeeze_append, List.length_append] at hcount h hpos
  omega

/-- Words that are apart without their white space do not overlap. -/
theorem length_le_of_squeeze (h : apart (squeeze u) (squeeze w)) (hu : Tight u)
    (e : before ++ w ++ after = x ++ u ++ y) :
    x.length + u.length ≤ before.length ∨ before.length + w.length ≤ x.length := by
  have e' : squeeze before ++ squeeze w ++ squeeze after = squeeze x ++ squeeze u ++ squeeze y := by
    simp only [← squeeze_append, e]
  rcases length_le_of_apart h e' with hlen | hlen
  · rw [List.append_assoc] at e
    exact .inl (length_le_of_squeeze_left hu e hlen)
  · rw [← List.length_append, ← squeeze_append] at hlen
    have hle := length_le_of_squeeze_right hu e hlen
    rw [List.length_append] at hle
    exact .inr hle

/-- A word does not reach into a text that cannot start inside it. -/
theorem length_le_of_startsIn {c : Char} {v : Text} (hw : squeeze u = c :: v) (hu : Tight u)
    (hs : startsIn (squeeze w) v = false) (e : before ++ w ++ after = x ++ u ++ y) :
    x.length + u.length ≤ before.length ∨ before.length ≤ x.length := by
  have e' : squeeze before ++ (squeeze w ++ squeeze after) =
      squeeze x ++ (squeeze u ++ squeeze y) := by
    simp only [← squeeze_append, ← List.append_assoc, e]
  have e1 : before ++ (w ++ after) = x ++ u ++ y := by
    rw [← List.append_assoc, e]
  by_cases hlen : (squeeze before).length ≤ (squeeze x).length
  · exact .inr (length_le_of_squeeze_right hu e1 hlen)
  · refine .inl (length_le_of_squeeze_left hu e1 (Nat.le_of_not_lt fun hlt => ?_))
    -- The text would start inside the word, behind its first character.
    rcases List.append_eq_append_iff.mp e' with ⟨z, hz, -⟩ | ⟨z, hz, hrest⟩
    · rw [hz, List.length_append] at hlen
      omega
    · rcases List.append_eq_append_iff.mp hrest with ⟨r, hr, -⟩ | ⟨r, hr, hr'⟩
      · rw [hz, hr] at hlt
        simp only [List.length_append] at hlt
        omega
      · cases z with
        | nil =>
            rw [hz] at hlen
            simp at hlen
        | cons d z =>
            rw [hw, List.cons_append] at hr
            obtain ⟨rfl, hv⟩ := List.cons.inj hr
            have hr0 : r ≠ [] := by
              rintro rfl
              rw [hz, hw, hv] at hlt
              simp at hlt
            have hprefix : squeeze w <+: r ∨ r <+: squeeze w :=
              List.prefix_or_prefix_of_prefix ⟨_, hr'⟩ ⟨_, rfl⟩
            rw [hv, startsIn_of_suffix hr0 hprefix] at hs
            simp at hs

end Graft.Text
