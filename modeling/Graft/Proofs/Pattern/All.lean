import Graft.Proofs.Pattern.Plain

/-! # Successive matches

`findAll` searches on from the end of the last match.  So it finds a match at every place where the
pattern can match and which no match that starts earlier reaches over (`exists_mem_findAll`). -/

namespace Graft.Pattern

variable {p : Pattern} {t a u b : Text}

/-- A match of the pattern behind `a`. -/
def MatchAt (p : Pattern) (t a : Text) (m : Match) : Prop :=
  ∃ u b gs, t = a ++ u ++ b ∧ p.Spans a u b ∧ m = .ofSpot a.reverse ⟨(a ++ u).reverse, b, gs⟩

theorem MatchAt.start_eq {m : Match} (h : p.MatchAt t a m) : m.start = a.length := by
  obtain ⟨u, b, gs, -, -, rfl⟩ := h
  simp [Match.ofSpot]

theorem MatchAt.text_eq {m : Match} (h : p.MatchAt t a m) :
    ∃ u b, t = a ++ u ++ b ∧ p.Spans a u b ∧ m.stop = a.length + u.length ∧ m.text t = u := by
  obtain ⟨u, b, gs, rfl, hu, rfl⟩ := h
  refine ⟨u, b, rfl, hu, by simp [Match.ofSpot, Nat.add_comm], ?_⟩
  have e := Text.slice_append a u b
  simpa [Match.text, Match.ofSpot, Nat.add_comm] using e

/-- A position at or before the end of `a` cuts `a`. -/
theorem exists_split_at {pos : Nat} (e : t = a ++ u) (hpos : pos ≤ a.length) :
    ∃ v, a = t.take pos ++ v ∧ t.drop pos = v ++ u := by
  have hprefix : t.take pos <+: a := List.prefix_of_prefix_length_le (List.take_prefix pos t)
    ⟨u, e.symm⟩ (Nat.le_trans (List.length_take_le pos t) hpos)
  obtain ⟨v, rfl⟩ := hprefix
  refine ⟨v, rfl, List.append_cancel_left (?_ : t.take pos ++ _ = t.take pos ++ _)⟩
  rw [List.take_append_drop, ← List.append_assoc]
  exact e

/-- A search from a position finds the first place at or after it where the pattern can match. -/
theorem exists_matchAt_of_findFrom? (hp : p.Flat) {pos : Nat} {m : Match}
    (h : p.findFrom? t pos = some m) :
    ∃ a, p.MatchAt t a m ∧ min pos t.length ≤ a.length ∧
      ∀ a' u' b', t = a' ++ u' ++ b' → p.Spans a' u' b' → pos ≤ a'.length →
        a.length ≤ a'.length := by
  rw [findFrom?_eq hp] at h
  obtain ⟨v, w, hvw, hbest, hleast⟩ := leftmost_eq_some h
  rw [List.reverse_reverse] at hleast
  have ht : t = (t.take pos ++ v) ++ w := by
    rw [List.append_assoc, ← hvw, List.take_append_drop]
  rw [← List.reverse_append, bestAt, Option.map_eq_some_iff] at hbest
  obtain ⟨⟨before, after, gs⟩, hhead, rfl⟩ := hbest
  obtain ⟨u, b, rfl, h1, h2, hu⟩ := spans_of_mem_ways (List.mem_of_mem_head? hhead)
  obtain rfl : before = ((t.take pos ++ v) ++ u).reverse := h1
  obtain rfl : after = b := h2
  rw [← List.append_assoc] at ht
  refine ⟨t.take pos ++ v, ⟨u, after, gs, ht, hu, rfl⟩, ?_, fun a' u' b' e hu' hpos => ?_⟩
  · rw [List.length_append, List.length_take]
    exact Nat.le_add_right _ _
  · rw [List.append_assoc] at e
    obtain ⟨v', rfl, hdrop⟩ := exists_split_at e hpos
    rw [← List.append_assoc] at hdrop
    rw [List.length_append, List.length_append]
    exact Nat.add_le_add_left (hleast v' u' b' hdrop hu') _

theorem exists_mem_findFrom (hp : p.Flat) (e : t = a ++ u ++ b) (hu : p.Spans a u b) (hne : u ≠ [])
    (hover : ∀ a' u' b', t = a' ++ u' ++ b' → p.Spans a' u' b' → a'.length < a.length →
      a'.length + u'.length ≤ a.length) {n pos : Nat} (hn : t.length < n + pos)
    (hpos : pos ≤ a.length) : ∃ m ∈ p.findFrom t n pos, p.MatchAt t a m := by
  have hlen : a.length < t.length := by
    rw [e]
    simpa using Nat.lt_of_lt_of_le (List.length_pos_iff.mpr hne) (Nat.le_add_right _ _)
  induction n generalizing pos with
  | zero => omega
  | succ n ih =>
      rw [findFrom]
      cases hfind : p.findFrom? t pos with
      | none =>
          exfalso
          rw [findFrom?_eq hp, leftmost_eq_none_iff, List.reverse_reverse] at hfind
          rw [List.append_assoc] at e
          obtain ⟨v, rfl, hdrop⟩ := exists_split_at e hpos
          exact hfind v u b (by rw [hdrop, List.append_assoc]) hu
      | some m =>
          obtain ⟨a', hm, hge, hleast⟩ := exists_matchAt_of_findFrom? hp hfind
          have hle := hleast a u b e hu hpos
          have hstart := hm.start_eq
          obtain ⟨u', b', e', hu', hstop, -⟩ := hm.text_eq
          by_cases heq : a'.length = a.length
          · -- This is the place.
            rw [e, List.append_assoc, List.append_assoc] at e'
            obtain rfl : a = a' := (List.append_inj e' heq.symm).1
            exact ⟨m, List.mem_cons_self .., hm⟩
          · -- The match lies before the place, and the search goes on behind it.
            have hend := hover a' u' b' e' hu' (by omega)
            have hn' : t.length < n + max m.stop (m.start + 1) := by omega
            obtain ⟨m', hmem, hm'⟩ := ih hn' (by omega)
            refine ⟨m', List.mem_cons_of_mem _ ?_, hm'⟩
            rwa [if_neg (by omega)]

/-- Every successive match is a match at some place. -/
theorem exists_matchAt_of_mem_findFrom (hp : p.Flat) {n pos : Nat} {m : Match}
    (hm : m ∈ p.findFrom t n pos) : ∃ a, p.MatchAt t a m := by
  induction n generalizing pos with
  | zero => simp [findFrom] at hm
  | succ n ih =>
      rw [findFrom] at hm
      cases hfind : p.findFrom? t pos with
      | none => simp [hfind] at hm
      | some m' =>
          simp only [hfind, List.mem_cons] at hm
          rcases hm with rfl | hm
          · obtain ⟨a, ha, -⟩ := exists_matchAt_of_findFrom? hp hfind
            exact ⟨a, ha⟩
          · split at hm
            · simp at hm
            · exact ih hm

theorem exists_matchAt_of_mem_findAll (hp : p.Flat) {m : Match} (hm : m ∈ p.findAll t) :
    ∃ a, p.MatchAt t a m := exists_matchAt_of_mem_findFrom hp hm

/-- A match that no earlier one reaches over is among the successive matches. -/
theorem exists_mem_findAll (hp : p.Flat) (e : t = a ++ u ++ b) (hu : p.Spans a u b) (hne : u ≠ [])
    (hover : ∀ a' u' b', t = a' ++ u' ++ b' → p.Spans a' u' b' → a'.length < a.length →
      a'.length + u'.length ≤ a.length) : ∃ m ∈ p.findAll t, p.MatchAt t a m :=
  exists_mem_findFrom hp e hu hne hover (by omega) (Nat.zero_le _)

end Graft.Pattern
