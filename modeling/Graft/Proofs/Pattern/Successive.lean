import Graft.Proofs.Pattern.All

/-! # All successive matches

`Finds p a t ms` says which matches follow one another in the text `t` behind `a`: each begins at
the first place behind the last one where the pattern can match, and takes the best way there.  For
a pattern that always takes a character, these are the matches that `findAll` lists
(`findAll_eq_iff`). -/

namespace Graft.Pattern

/-- The successive matches in a text that lies behind `a`. -/
inductive Finds (p : Pattern) : Text → Text → List Match → Prop where
  | stop {a t : Text} (hnone : ∀ v u b, t = v ++ u ++ b → ¬p.Spans (a ++ v) u b) : Finds p a t []
  | next {a v u b : Text} {gs : List (Nat × Text × Text)} {ms : List Match}
      (best : (p.ways ⟨(a ++ v).reverse, u ++ b, []⟩).head? = some ⟨(a ++ v ++ u).reverse, b, gs⟩)
      (least : ∀ v' u' b', v ++ u ++ b = v' ++ u' ++ b' → p.Spans (a ++ v') u' b' →
        v.length ≤ v'.length)
      (rest : Finds p (a ++ v ++ u) b ms) :
      Finds p a (v ++ u ++ b) (.ofSpot (a ++ v).reverse ⟨(a ++ v ++ u).reverse, b, gs⟩ :: ms)

variable {p : Pattern} {a t : Text} {ms : List Match}

theorem Finds.le_start (h : p.Finds a t ms) : ∀ m ∈ ms, a.length ≤ m.start := by
  induction h with
  | stop => exact fun _ hm => nomatch hm
  | @next a v u b gs ms _ _ _ ih =>
      intro m hm
      rcases List.mem_cons.mp hm with rfl | hm
      · simp [Match.ofSpot]
      · have := ih m hm
        simp only [List.length_append] at this
        omega

/-- Patterns that take at least one character. -/
def Taking (p : Pattern) : Prop := ∀ a b, ¬p.Spans a [] b

theorem leftmost_eq_of_least {before v w : Text} {m : Match}
    (hbest : p.bestAt (v.reverse ++ before) w = some m)
    (hleast : ∀ v' u b, v ++ w = v' ++ u ++ b → p.Spans (before.reverse ++ v') u b →
      v.length ≤ v'.length) : p.leftmost before (v ++ w) = some m := by
  induction v generalizing before with
  | nil =>
      have hbest' : p.bestAt before w = some m := hbest
      cases w with
      | nil => exact hbest'
      | cons c w => rw [List.nil_append, leftmost, hbest', Option.some_or]
  | cons c v ih =>
      have hnone : p.bestAt before (c :: (v ++ w)) = none := by
        refine bestAt_eq_none_iff.mpr fun u b e hu => ?_
        have h := hleast [] u b (by simpa using e) (by simpa using hu)
        simp at h
      rw [List.cons_append, leftmost, hnone, Option.none_or]
      refine ih (by simpa using hbest) fun v' u b e hu => ?_
      have h := hleast (c :: v') u b (by simp [e]) (by simpa using hu)
      simpa using h

theorem findFrom?_append (hp : p.Flat) (a t : Text) :
    p.findFrom? (a ++ t) a.length = p.leftmost a.reverse t := by
  rw [findFrom?_eq hp, List.take_left, List.drop_left]

/-- The match at the first place of a text. -/
theorem stop_of_append {a v u b : Text} {gs : List (Nat × Text × Text)} :
    (Match.ofSpot (a ++ v).reverse ⟨(a ++ v ++ u).reverse, b, gs⟩).stop = (a ++ v ++ u).length := by
  simp only [Match.ofSpot, List.length_reverse]

theorem findFrom_next {a v u b : Text} {gs : List (Nat × Text × Text)} (hu : u ≠ [])
    (hfind : p.findFrom? (a ++ (v ++ u ++ b)) a.length =
      some (.ofSpot (a ++ v).reverse ⟨(a ++ v ++ u).reverse, b, gs⟩)) (n : Nat) :
    p.findFrom (a ++ (v ++ u ++ b)) (n + 1) a.length =
      .ofSpot (a ++ v).reverse ⟨(a ++ v ++ u).reverse, b, gs⟩ ::
        if b = [] then [] else p.findFrom (a ++ v ++ u ++ b) n (a ++ v ++ u).length := by
  have hlen : 0 < u.length := List.length_pos_iff.mpr hu
  have htext : a ++ (v ++ u ++ b) = a ++ v ++ u ++ b := by simp
  rw [findFrom, hfind, htext]
  simp only [stop_of_append]
  have hmax : max (a ++ v ++ u).length
      ((Match.ofSpot (a ++ v).reverse ⟨(a ++ v ++ u).reverse, b, gs⟩).start + 1) =
        (a ++ v ++ u).length := by
    simp only [Match.ofSpot, List.length_reverse, List.length_append]
    omega
  rw [hmax]
  by_cases hb : b = []
  · rw [if_pos hb, if_pos (Nat.le_of_eq (by rw [hb, List.append_nil]))]
  · have := List.length_pos_iff.mpr hb
    rw [if_neg hb, if_neg (by simp only [List.length_append]; omega)]

theorem Finds.eq_nil_of_nil (hne : p.Taking) (h : p.Finds a [] ms) : ms = [] := by
  generalize ht : ([] : Text) = t at h
  cases h with
  | stop => rfl
  | next best =>
      obtain ⟨hvu, rfl⟩ := List.append_eq_nil_iff.mp ht.symm
      obtain ⟨rfl, rfl⟩ := List.append_eq_nil_iff.mp hvu
      exact absurd (spans_of_best best) (hne _ _)

theorem Finds.findFrom (hp : p.Flat) (hne : p.Taking) (h : p.Finds a t ms) {n : Nat}
    (hn : t.length < n) : p.findFrom (a ++ t) n a.length = ms := by
  induction h generalizing n with
  | @stop a t hnone =>
      cases n with
      | zero => exact absurd hn (Nat.not_lt_zero _)
      | succ n =>
          have hleft : p.leftmost a.reverse t = none := by
            rw [leftmost_eq_none_iff, List.reverse_reverse]
            exact hnone
          rw [Pattern.findFrom, findFrom?_append hp, hleft]
  | @next a v u b gs ms best least rest ih =>
      cases n with
      | zero => exact absurd hn (Nat.not_lt_zero _)
      | succ n =>
          have hu0 : u ≠ [] := by
            rintro rfl
            exact hne _ _ (spans_of_best best)
          have hbest : p.bestAt (v.reverse ++ a.reverse) (u ++ b) =
              some (.ofSpot (a ++ v).reverse ⟨(a ++ v ++ u).reverse, b, gs⟩) := by
            rw [← List.reverse_append, bestAt, best]
            rfl
          have hfind : p.findFrom? (a ++ (v ++ u ++ b)) a.length =
              some (.ofSpot (a ++ v).reverse ⟨(a ++ v ++ u).reverse, b, gs⟩) := by
            rw [findFrom?_append hp, List.append_assoc]
            refine leftmost_eq_of_least hbest fun v' u' b' e hu' => ?_
            exact least v' u' b' (by rw [← e, List.append_assoc]) (by simpa using hu')
          have hlen := List.length_pos_iff.mpr hu0
          simp only [List.length_append] at hn
          rw [findFrom_next hu0 hfind]
          by_cases hb : b = []
          · subst hb
            rw [if_pos rfl, rest.eq_nil_of_nil hne]
          · rw [if_neg hb, ih (by omega)]

theorem exists_finds (hp : p.Flat) (hne : p.Taking) (a t : Text) {n : Nat} (hn : t.length < n) :
    p.Finds a t (p.findFrom (a ++ t) n a.length) := by
  induction n generalizing a t with
  | zero => exact absurd hn (Nat.not_lt_zero _)
  | succ n ih =>
      cases hfind : p.findFrom? (a ++ t) a.length with
      | none =>
          rw [findFrom, hfind]
          rw [findFrom?_append hp] at hfind
          rw [leftmost_eq_none_iff, List.reverse_reverse] at hfind
          exact .stop hfind
      | some m =>
          have hleft := hfind
          rw [findFrom?_append hp] at hleft
          obtain ⟨v, w, rfl, hbest, hleast⟩ := leftmost_eq_some hleft
          rw [← List.reverse_append, bestAt, Option.map_eq_some_iff] at hbest
          obtain ⟨⟨before, after, gs⟩, hhead, rfl⟩ := hbest
          obtain ⟨u, b, rfl, h1, h2, hu⟩ := spans_of_mem_ways (List.mem_of_mem_head? hhead)
          obtain rfl : before = (a ++ v ++ u).reverse := h1
          obtain rfl : after = b := h2
          have hu0 : u ≠ [] := by
            rintro rfl
            exact hne _ _ hu
          have hlen := List.length_pos_iff.mpr hu0
          simp only [List.length_append] at hn
          rw [← List.append_assoc v u after] at hfind ⊢
          rw [List.reverse_reverse] at hleast
          rw [findFrom_next hu0 hfind]
          refine .next hhead (fun v' u' b' e hu' => hleast v' u' b' (by simpa using e) hu') ?_
          by_cases hb : after = []
          · rw [if_pos hb, hb]
            refine .stop fun v' u' b' e hu' => ?_
            obtain ⟨rfl, rfl, rfl⟩ : v' = [] ∧ u' = [] ∧ b' = [] := by simpa using e.symm
            exact hne _ _ hu'
          · rw [if_neg hb]
            exact ih _ _ (by omega)

/-- The successive matches are those that `findAll` lists. -/
theorem findAll_eq_iff (hp : p.Flat) (hne : p.Taking) : p.findAll t = ms ↔ p.Finds [] t ms := by
  constructor
  · rintro rfl
    exact exists_finds hp hne [] t (Nat.lt_succ_self _)
  · intro h
    exact h.findFrom hp hne (Nat.lt_succ_self _)

end Graft.Pattern
