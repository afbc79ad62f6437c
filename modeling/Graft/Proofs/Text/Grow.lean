import Graft.Text.Basic

/-! # Texts that grow

`Grows n s t` says that `t` comes from `s` by at most `n` insertions, wherever they are.  So `t` has
all characters of `s`, in the same order (`Grows.sublist`). -/

namespace Graft.Text

/-- At most `n` texts have come into the first text, one after the other. -/
inductive Grows : Nat → Text → Text → Prop where
  | refl (n : Nat) (t : Text) : Grows n t t
  | insert {n : Nat} {s p q : Text} (w : Text) (h : Grows n s (p ++ q)) :
      Grows (n + 1) s (p ++ w ++ q)

variable {m n : Nat} {s t u : Text}

theorem Grows.one (p w q : Text) : Grows 1 (p ++ q) (p ++ w ++ q) := .insert w (.refl 0 _)

theorem Grows.sublist (h : Grows n s t) : s.Sublist t := by
  induction h with
  | refl n t => exact List.Sublist.refl t
  | insert w h ih =>
      rw [List.append_assoc]
      exact ih.trans ((List.Sublist.refl _).append (List.sublist_append_right ..))

theorem Grows.mono (h : Grows m s t) (hle : m ≤ n) : Grows n s t := by
  induction h generalizing n with
  | refl m t => exact .refl n t
  | insert w h ih =>
      obtain ⟨k, rfl⟩ : ∃ k, n = k + 1 := ⟨n - 1, by omega⟩
      exact .insert w (ih (by omega))

theorem Grows.trans (h : Grows m s t) (h' : Grows n t u) : Grows (m + n) s u := by
  induction h' with
  | refl n t => exact h.mono (by omega)
  | insert w _ ih => exact .insert w (ih h)

end Graft.Text
