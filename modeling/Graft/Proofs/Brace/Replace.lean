import Graft.Proofs.Brace

/-! # Replacing a piece of a balanced text

A text closes the braces that are open before it when no beginning of it closes more than there are
and the whole closes all of them (`closes_iff`).  So a piece of a balanced text that gives way to a
balanced one leaves the text balanced exactly when it opens as many braces as it closes
(`isBalanced_replace_iff`). -/

namespace Graft.Brace

variable {n : Int} {c : Char} {s t x y old new : Text}

/-- Starting from depth `n`, the text never closes a brace that is not open. -/
def Above (n : Int) (t : Text) : Prop := ∀ p, p <+: t → 0 ≤ n + depth p

theorem Above.start_nonneg (h : Above n t) : 0 ≤ n := by
  have := h [] (List.nil_prefix ..)
  rwa [depth_nil, Int.add_zero] at this

theorem Above.end_nonneg (h : Above n t) : 0 ≤ n + depth t := h t (List.prefix_refl t)

theorem Above.mono (h : Above 0 t) (hn : 0 ≤ n) : Above n t := by
  intro p hp
  have := h p hp
  omega

theorem above_nil : Above n [] ↔ 0 ≤ n := by
  refine ⟨Above.start_nonneg, fun h p hp => ?_⟩
  rwa [List.prefix_nil.mp hp, depth_nil, Int.add_zero]

theorem above_cons : Above n (c :: t) ↔ 0 ≤ n ∧ Above (n + delta c) t := by
  constructor
  · refine fun h => ⟨h.start_nonneg, fun p hp => ?_⟩
    have := h (c :: p) (List.cons_prefix_cons.mpr ⟨rfl, hp⟩)
    rwa [depth_cons, ← Int.add_assoc] at this
  · rintro ⟨hn, h⟩ p hp
    cases p with
    | nil => rwa [depth_nil, Int.add_zero]
    | cons d p =>
        obtain ⟨rfl, hprefix⟩ := List.cons_prefix_cons.mp hp
        rw [depth_cons, ← Int.add_assoc]
        exact h p hprefix

theorem above_append : Above n (s ++ t) ↔ Above n s ∧ Above (n + depth s) t := by
  induction s generalizing n with
  | nil =>
      rw [List.nil_append, depth_nil, Int.add_zero, above_nil]
      exact ⟨fun h => ⟨h.start_nonneg, h⟩, And.right⟩
  | cons c s ih =>
      rw [List.cons_append, above_cons, above_cons, ih, depth_cons, Int.add_assoc, and_assoc]

theorem closes_iff {n : Nat} : closes n t ↔ Above n t ∧ n + depth t = 0 := by
  induction t generalizing n with
  | nil =>
      rw [closes_nil, decide_eq_true_iff, above_nil, depth_nil]
      omega
  | cons c t ih =>
      rw [above_cons, depth_cons, ← Int.add_assoc]
      rcases brace_cases c with rfl | rfl | h
      · rw [closes_open, ih, show delta '{' = 1 from rfl]
        simp
      · cases n with
        | zero =>
            rw [closes_close_zero, show delta '}' = -1 from rfl]
            refine ⟨fun h => absurd h Bool.false_ne_true, fun h => ?_⟩
            have := h.1.2.start_nonneg
            omega
        | succ n =>
            rw [closes_close_succ, ih, show delta '}' = -1 from rfl,
              show ((n + 1 : Nat) : Int) + -1 = n by omega]
            simp
            omega
      · rw [closes_other h, ih, delta, if_neg h.1, if_neg h.2, Int.add_zero]
        simp

theorem isBalanced_iff : isBalanced t ↔ Above 0 t ∧ depth t = 0 := by
  have h := closes_iff (n := 0) (t := t)
  rwa [Int.natCast_zero, Int.zero_add] at h

/-- Whether a balanced text stays balanced when a balanced piece takes the place of another one. -/
theorem isBalanced_replace_iff (h : isBalanced (x ++ old ++ y)) (hnew : isBalanced new) :
    isBalanced (x ++ new ++ y) ↔ depth old = 0 := by
  rw [isBalanced_iff] at hnew
  simp only [isBalanced_iff, above_append, depth_append, Int.zero_add] at h ⊢
  obtain ⟨⟨⟨hx, -⟩, hy⟩, hsum⟩ := h
  obtain ⟨hnew, hzero⟩ := hnew
  constructor
  · rintro ⟨-, hsum'⟩
    omega
  · intro hold
    rw [hold] at hy hsum
    rw [hzero]
    exact ⟨⟨⟨hx, hnew.mono (by simpa using hx.end_nonneg)⟩, hy⟩, hsum⟩

end Graft.Brace
