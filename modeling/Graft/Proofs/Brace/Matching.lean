import Graft.Proofs.Brace.Replace

/-! # Matching and depth

Three scans look at the braces of a text: the search for a partner, the test for balance, and the
count of the depth.  They agree on which braces match (`Matched`): the search finds the first place
behind an opening brace where the depth is back (`closingOf?_eq_some_iff_matched`), a text is balanced
exactly when every brace is matched (`isBalanced_iff_matched`), and what matched braces enclose is
nested or disjoint (`Matched.nested_or_disjoint`). -/

namespace Graft.Brace

variable {t : Text} {i j k c i' c' : Nat}

/-! ### Depth -/

@[simp] theorem depthAt_zero (t : Text) : depthAt t 0 = 0 := rfl

theorem depthAt_length (t : Text) : depthAt t t.length = depth t := by
  unfold depthAt
  rw [List.take_length]

theorem depthAt_append (s t : Text) (i : Nat) :
    depthAt (s ++ t) (s.length + i) = depth s + depthAt t i := by
  unfold depthAt
  rw [List.take_length_add_append, depth_append]

theorem depthAt_succ (t : Text) (i : Nat) :
    depthAt t (i + 1) = depthAt t i + depth t[i]?.toList := by
  unfold depthAt
  rw [List.take_add_one, depth_append]

theorem depthAt_succ_of_open (h : t[i]? = some '{') : depthAt t (i + 1) = depthAt t i + 1 := by
  rw [depthAt_succ, h]
  rfl

theorem depthAt_succ_of_close (h : t[i]? = some '}') : depthAt t (i + 1) = depthAt t i - 1 := by
  rw [depthAt_succ, h]
  rfl

/-- Only a brace changes the depth. -/
theorem depthAt_succ_cases (t : Text) (i : Nat) :
    t[i]? = some '{' ∨ t[i]? = some '}' ∨ depthAt t (i + 1) = depthAt t i := by
  cases h : t[i]? with
  | none =>
      right; right
      rw [depthAt_succ, h]
      exact Int.add_zero _
  | some d =>
      obtain rfl | rfl | ⟨hopen, hclose⟩ := brace_cases d
      · exact .inl rfl
      · exact .inr (.inl rfl)
      · right; right
        rw [depthAt_succ, h, Option.toList_some, depth_cons, depth_nil]
        unfold delta
        rw [if_neg hopen, if_neg hclose]
        omega

/-- Where the text gets deeper, a brace opens. -/
theorem open_of_lt (h : depthAt t i < depthAt t (i + 1)) : t[i]? = some '{' := by
  obtain hopen | hclose | hsame := depthAt_succ_cases t i
  · exact hopen
  · have := depthAt_succ_of_close hclose
    omega
  · omega

theorem above_iff {n : Int} : Above n t ↔ ∀ i ≤ t.length, 0 ≤ n + depthAt t i := by
  constructor
  · exact fun h i _ => h _ (List.take_prefix i t)
  · intro h p hp
    have := h p.length hp.length_le
    unfold depthAt at this
    rwa [← List.prefix_iff_eq_take.mp hp] at this

/-! ### Matching braces -/

/-- The braces at two positions match: the closing one is the first to bring back the depth before the
opening one. -/
structure Matched (t : Text) (openAt closeAt : Nat) : Prop where
  opens : t[openAt]? = some '{'
  lt : openAt < closeAt
  closes : t[closeAt]? = some '}'
  level : depthAt t (closeAt + 1) = depthAt t openAt
  above : ∀ j, openAt < j → j ≤ closeAt → depthAt t openAt < depthAt t j

theorem Matched.close_lt (h : Matched t i c) : c < t.length :=
  (List.getElem?_eq_some_iff.mp h.closes).1

theorem exists_split_of_getElem? {d : Char} (h : t[i]? = some d) :
    ∃ a r, t = a ++ d :: r ∧ a.length = i := by
  obtain ⟨hi, hd⟩ := List.getElem?_eq_some_iff.mp h
  refine ⟨t.take i, t.drop (i + 1), ?_, List.length_take_of_le (Nat.le_of_lt hi)⟩
  rw [← hd, ← List.drop_eq_getElem_cons hi, List.take_append_drop]

/-- Between two braces the depth is that of the text between them, and one more than before. -/
theorem depthAt_between {a inner b : Text} (hk : k ≤ inner.length) :
    depthAt (a ++ '{' :: inner ++ '}' :: b) (a.length + 1 + k) = depth a + 1 + depthAt inner k := by
  have e : a ++ '{' :: inner ++ '}' :: b = (a ++ ['{']) ++ (inner ++ '}' :: b) := by simp
  have hlen : a.length + 1 + k = (a ++ ['{']).length + k := by simp
  rw [e, hlen, depthAt_append, depth_append]
  unfold depthAt
  rw [List.take_append_of_le_length hk]
  rfl

/-- Two braces match exactly when the text between them is balanced. -/
theorem matched_split_iff {a inner b : Text} :
    Matched (a ++ '{' :: inner ++ '}' :: b) a.length (a.length + 1 + inner.length) ↔
      isBalanced inner := by
  have hopen : depthAt (a ++ '{' :: inner ++ '}' :: b) a.length = depth a := by
    rw [List.append_assoc]
    exact (depthAt_append a _ 0).trans (Int.add_zero _)
  have hclose : (a ++ '{' :: inner ++ '}' :: b)[a.length + 1 + inner.length]? = some '}' := by
    have hlen : a.length + 1 + inner.length = (a ++ '{' :: inner).length := by
      simp only [List.length_append, List.length_cons]
      omega
    rw [hlen, List.getElem?_append_right (Nat.le_refl _), Nat.sub_self]
    rfl
  have hlevel : depthAt (a ++ '{' :: inner ++ '}' :: b) (a.length + 1 + inner.length + 1) =
      depth a + depth inner := by
    rw [depthAt_succ_of_close hclose, depthAt_between (Nat.le_refl _), depthAt_length]
    omega
  rw [isBalanced_iff, above_iff]
  constructor
  · intro h
    have hzero := h.level
    rw [hlevel, hopen] at hzero
    refine ⟨fun k hk => ?_, by omega⟩
    have habove := h.above (a.length + 1 + k) (by omega) (by omega)
    rw [hopen, depthAt_between hk] at habove
    omega
  · rintro ⟨habove, hzero⟩
    refine ⟨by simp, by omega, hclose, ?_, fun j hj hle => ?_⟩
    · rw [hlevel, hopen, hzero, Int.add_zero]
    · obtain ⟨k, rfl⟩ := Nat.exists_eq_add_of_le (Nat.succ_le_of_lt hj)
      have hk : k ≤ inner.length := by omega
      have := habove k hk
      rw [hopen, Nat.succ_eq_add_one, depthAt_between hk]
      omega

theorem closingOf?_eq_some_iff_matched : closingOf? t i = some c ↔ Matched t i c := by
  rw [closingOf?_eq_some_iff]
  constructor
  · rintro ⟨a, inner, b, rfl, hin, rfl, rfl⟩
    exact matched_split_iff.mpr hin
  · intro h
    obtain ⟨a, r, rfl, rfl⟩ := exists_split_of_getElem? h.opens
    obtain ⟨k, rfl⟩ := Nat.exists_eq_add_of_le (Nat.succ_le_of_lt h.lt)
    have hk : r[k]? = some '}' := by
      have hclose := h.closes
      have hsub : a.length.succ + k - a.length = k + 1 := by omega
      rwa [List.getElem?_append_right (by omega), hsub, List.getElem?_cons_succ] at hclose
    obtain ⟨inner, b, rfl, rfl⟩ := exists_split_of_getElem? hk
    have e : a ++ '{' :: (inner ++ '}' :: b) = a ++ '{' :: inner ++ '}' :: b := by simp
    rw [e] at h ⊢
    exact ⟨a, inner, b, rfl, matched_split_iff.mp h, rfl, rfl⟩

/-- Braces that match in a piece of a text match in the text. -/
theorem Matched.inside (h : Matched t i c) (x y : Text) :
    Matched (x ++ t ++ y) (x.length + i) (x.length + c) := by
  obtain ⟨a, inner, b, rfl, hin, rfl, rfl⟩ :=
    closingOf?_eq_some_iff.mp (closingOf?_eq_some_iff_matched.mpr h)
  refine closingOf?_eq_some_iff_matched.mp (closingOf?_eq_some_iff.mpr
    ⟨x ++ a, inner, b ++ y, by simp, hin, List.length_append, ?_⟩)
  omega

/-- What lies between matching braces is balanced. -/
theorem Matched.isBalanced_slice (h : Matched t i c) : isBalanced (t.slice (i + 1) c) := by
  obtain ⟨a, inner, b, rfl, hin, rfl, rfl⟩ :=
    closingOf?_eq_some_iff.mp (closingOf?_eq_some_iff_matched.mpr h)
  have hslice : (a ++ '{' :: inner ++ '}' :: b).slice (a.length + 1) (a.length + 1 + inner.length) =
      inner := by
    have hlen : a.length + 1 = (a ++ ['{']).length := by simp
    have e : a ++ '{' :: inner ++ '}' :: b = (a ++ ['{'] ++ inner) ++ '}' :: b := by simp
    unfold Text.slice
    rw [hlen, ← List.length_append, e, List.take_left, List.drop_left]
  rwa [hslice]

/-- Of two braces that open, the later one is matched before the earlier one, or opens behind it. -/
theorem Matched.of_lt (h : Matched t i c) (h' : Matched t i' c') (hlt : i < i') :
    c < i' ∨ c' < c := by
  by_cases hbehind : c < i'
  · exact .inl hbehind
  refine .inr (Nat.lt_of_not_le fun hle => ?_)
  -- otherwise the depth before the outer brace is back inside the inner pair
  have hinner := h.above i' hlt (by omega)
  obtain rfl | hlater := Nat.eq_or_lt_of_le hle
  · have hlevel := h.level.symm.trans h'.level
    omega
  · have hend := h'.above (c + 1) (by omega) (by omega)
    rw [h.level] at hend
    omega

theorem Matched.open_unique (h : Matched t i c) (h' : Matched t i' c) : i' = i := by
  have := h.lt
  have := h'.lt
  obtain hlt | heq | hlt : i < i' ∨ i' = i ∨ i' < i := by omega
  · obtain _ | _ := h.of_lt h' hlt <;> omega
  · exact heq
  · obtain _ | _ := h'.of_lt h hlt <;> omega

theorem Matched.nested_or_disjoint (h : Matched t i c) (h' : Matched t i' c') :
    (i = i' ∧ c = c') ∨ (c < i' ∨ c' < i) ∨ (i < i' ∧ c' < c) ∨ (i' < i ∧ c < c') := by
  obtain hlt | rfl | hlt : i < i' ∨ i = i' ∨ i' < i := by omega
  · obtain hout | hin := h.of_lt h' hlt
    · exact .inr (.inl (.inl hout))
    · exact .inr (.inr (.inl ⟨hlt, hin⟩))
  · have hc := (closingOf?_eq_some_iff_matched.mpr h).symm.trans
      (closingOf?_eq_some_iff_matched.mpr h')
    exact .inl ⟨rfl, Option.some.inj hc⟩
  · obtain hout | hin := h'.of_lt h hlt
    · exact .inr (.inl (.inr hout))
    · exact .inr (.inr (.inr ⟨hlt, hin⟩))

/-! ### Balance -/

/-- A closing brace is matched when the text before it has been as deep as it is behind the brace. -/
theorem exists_matched_of_close (hc : t[c]? = some '}') (hk : k ≤ c)
    (hdepth : depthAt t k ≤ depthAt t (c + 1)) : ∃ i, Matched t i c := by
  induction hn : c - k using Nat.strongRecOn generalizing k with
  | ind n ih =>
      by_cases hlater : ∃ j, k < j ∧ j ≤ c ∧ depthAt t j ≤ depthAt t (c + 1)
      · obtain ⟨j, hkj, hj, hdepth⟩ := hlater
        exact ih (c - j) (by omega) hj hdepth rfl
      · -- `k` is the last such place, so the brace that is matched opens there
        have habove : ∀ j, k < j → j ≤ c → depthAt t (c + 1) < depthAt t j :=
          fun j hkj hj => Int.lt_of_not_ge fun hge => hlater ⟨j, hkj, hj, hge⟩
        have hstep := depthAt_succ_of_close hc
        have hlt : k < c := by
          obtain hlt | rfl := Nat.lt_or_eq_of_le hk
          · exact hlt
          · omega
        have hnext := habove (k + 1) (by omega) hlt
        have hopen : t[k]? = some '{' := open_of_lt (by omega)
        have hup := depthAt_succ_of_open hopen
        refine ⟨k, hopen, hlt, hc, by omega, fun j hkj hj => ?_⟩
        have := habove j hkj hj
        omega

theorem depthAt_nonneg_of_matched (h : ∀ c, t[c]? = some '}' → ∃ i, Matched t i c) (k : Nat) :
    0 ≤ depthAt t k := by
  induction k using Nat.strongRecOn with
  | ind k ih =>
      cases k with
      | zero => exact Int.le_refl 0
      | succ k =>
          have hk := ih k (Nat.lt_succ_self k)
          obtain hopen | hclose | hsame := depthAt_succ_cases t k
          · have := depthAt_succ_of_open hopen
            omega
          · obtain ⟨i, hi⟩ := h k hclose
            rw [hi.level]
            exact ih i (Nat.lt_succ_of_lt hi.lt)
          · omega

theorem depth_le_of_matched (h : ∀ i, t[i]? = some '{' → ∃ c, Matched t i c) (hk : k ≤ t.length) :
    depth t ≤ depthAt t k := by
  induction hn : t.length - k using Nat.strongRecOn generalizing k with
  | ind n ih =>
      obtain hlt | rfl := Nat.lt_or_eq_of_le hk
      · obtain hopen | hclose | hsame := depthAt_succ_cases t k
        · obtain ⟨c, hc⟩ := h k hopen
          have hlen := hc.close_lt
          have := hc.lt
          rw [← hc.level]
          exact ih _ (by omega) hlen rfl
        · have hnext : depth t ≤ depthAt t (k + 1) := ih _ (by omega) hlt rfl
          have := depthAt_succ_of_close hclose
          omega
        · rw [← hsame]
          exact ih _ (by omega) hlt rfl
      · exact Int.le_of_eq (depthAt_length t).symm

/-- A text is balanced exactly when each of its braces has a partner. -/
theorem isBalanced_iff_matched :
    isBalanced t ↔ (∀ i, t[i]? = some '{' → ∃ c, Matched t i c) ∧
      ∀ c, t[c]? = some '}' → ∃ i, Matched t i c := by
  constructor
  · intro h
    constructor
    · intro i hi
      obtain ⟨a, r, rfl, rfl⟩ := exists_split_of_getElem? hi
      obtain ⟨k, hk⟩ := Option.isSome_iff_exists.mp (isSome_partner?_of_closes_append h)
      have hclose := closingOf?_append a r
      rw [hk, Option.map_some] at hclose
      exact ⟨_, closingOf?_eq_some_iff_matched.mp hclose⟩
    · intro c hc
      have habove := above_iff.mp (isBalanced_iff.mp h).1
      have hlen : c < t.length := (List.getElem?_eq_some_iff.mp hc).1
      have := habove (c + 1) hlen
      exact exists_matched_of_close hc (Nat.zero_le c) (by rw [depthAt_zero]; omega)
  · rintro ⟨hopen, hclose⟩
    have hzero := depth_le_of_matched hopen (Nat.zero_le _)
    have hend := depthAt_nonneg_of_matched hclose t.length
    rw [depthAt_zero] at hzero
    rw [depthAt_length] at hend
    refine isBalanced_iff.mpr ⟨above_iff.mpr fun i _ => ?_, by omega⟩
    have := depthAt_nonneg_of_matched hclose i
    omega

/-- The search for a partner, the test for balance and the depth agree on which braces match. -/
theorem closingOf?_matches (t : Text) :
    (∀ i c, closingOf? t i = some c ↔ Matched t i c) ∧
      (∀ i c, closingOf? t i = some c → isBalanced (t.slice (i + 1) c)) ∧
      (isBalanced t ↔ (∀ i, t[i]? = some '{' → ∃ c, closingOf? t i = some c) ∧
        ∀ c, t[c]? = some '}' →
          ∃ i, closingOf? t i = some c ∧ ∀ i', closingOf? t i' = some c → i' = i) ∧
      ∀ i c i' c', closingOf? t i = some c → closingOf? t i' = some c' →
        (i = i' ∧ c = c') ∨ (c < i' ∨ c' < i) ∨ (i < i' ∧ c' < c) ∨ (i' < i ∧ c < c') := by
  have hmatched : ∀ i c, closingOf? t i = some c ↔ Matched t i c :=
    fun i c => closingOf?_eq_some_iff_matched
  refine ⟨hmatched, fun i c h => ((hmatched i c).mp h).isBalanced_slice, ?_,
    fun i c i' c' h h' => ((hmatched i c).mp h).nested_or_disjoint ((hmatched i' c').mp h')⟩
  simp only [hmatched]
  rw [isBalanced_iff_matched]
  refine and_congr_right fun _ => forall_congr' fun c => imp_congr_right fun _ => ?_
  constructor
  · rintro ⟨i, hi⟩
    exact ⟨i, hi, fun i' hi' => hi.open_unique hi'⟩
  · rintro ⟨i, hi, -⟩
    exact ⟨i, hi⟩

end Graft.Brace
