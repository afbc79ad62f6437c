import Graft.Brace

/-! # Matching braces

A text is *balanced* when every brace in it has a partner.  Main facts:

* `partner?_eq_some_iff`, `closingOf?_eq_some_iff`: the partner of an opening brace is the closing
  brace behind a balanced text.
* `closes_insert`, `partner?_insert`: a balanced piece can be taken out of a text, or put into it,
  without a change to how the other braces match.
* `isSome_partner?_of_closes_append`: every opening brace in a text that closes its braces has its
  partner there. -/

namespace Graft.Brace

/-- Texts without braces. -/
def Free (t : Text) : Prop := '{' ∉ t ∧ '}' ∉ t

instance (t : Text) : Decidable (Free t) := inferInstanceAs (Decidable (_ ∧ _))

/-! ### Texts without braces -/

theorem free_nil : Free [] := ⟨List.not_mem_nil, List.not_mem_nil⟩

theorem free_cons {c : Char} {t : Text} : Free (c :: t) ↔ (c ≠ '{' ∧ c ≠ '}') ∧ Free t := by
  simp only [Free, List.mem_cons, not_or, ne_comm (b := c)]
  constructor
  · rintro ⟨⟨h1, h2⟩, h3, h4⟩
    exact ⟨⟨h1, h3⟩, h2, h4⟩
  · rintro ⟨⟨h1, h3⟩, h2, h4⟩
    exact ⟨⟨h1, h2⟩, h3, h4⟩

theorem free_append {s t : Text} : Free (s ++ t) ↔ Free s ∧ Free t := by
  simp only [Free, List.mem_append, not_or]
  constructor
  · rintro ⟨⟨h1, h2⟩, h3, h4⟩
    exact ⟨⟨h1, h3⟩, h2, h4⟩
  · rintro ⟨⟨h1, h3⟩, h2, h4⟩
    exact ⟨⟨h1, h2⟩, h3, h4⟩

/-- Characters of one kind, none of which is a brace, make a text without braces. -/
theorem free_of_all {p : Char → Bool} {t : Text} (h : t.all p) (h1 : p '{' = false)
    (h2 : p '}' = false) : Free t := by
  rw [List.all_eq_true] at h
  constructor
  · intro hmem
    simp [h _ hmem] at h1
  · intro hmem
    simp [h _ hmem] at h2

/-! ### Equations by character -/

theorem brace_cases (c : Char) : c = '{' ∨ c = '}' ∨ c ≠ '{' ∧ c ≠ '}' := by
  by_cases h1 : c = '{'
  · exact .inl h1
  · by_cases h2 : c = '}'
    · exact .inr (.inl h2)
    · exact .inr (.inr ⟨h1, h2⟩)

variable {n : Nat} {t : Text} {c : Char}

@[simp] theorem closes_nil : closes n [] = decide (n = 0) := by cases n <;> rfl

@[simp] theorem closes_open : closes n ('{' :: t) = closes (n + 1) t := by cases n <;> rfl

@[simp] theorem closes_close_zero : closes 0 ('}' :: t) = false := rfl

@[simp] theorem closes_close_succ : closes (n + 1) ('}' :: t) = closes n t := rfl

theorem closes_other (h : c ≠ '{' ∧ c ≠ '}') : closes n (c :: t) = closes n t := by
  cases n <;> rw [closes, if_neg h.1, if_neg h.2]

@[simp] theorem partner?_nil : partner? '{' '}' n [] = none := by cases n <;> rfl

@[simp] theorem partner?_open :
    partner? '{' '}' n ('{' :: t) = (partner? '{' '}' (n + 1) t).map (· + 1) := by
  cases n <;> rfl

@[simp] theorem partner?_close_zero : partner? '{' '}' 0 ('}' :: t) = some 0 := rfl

@[simp] theorem partner?_close_succ :
    partner? '{' '}' (n + 1) ('}' :: t) = (partner? '{' '}' n t).map (· + 1) := rfl

theorem partner?_other (h : c ≠ '{' ∧ c ≠ '}') :
    partner? '{' '}' n (c :: t) = (partner? '{' '}' n t).map (· + 1) := by
  cases n <;> rw [partner?, if_neg h.1, if_neg h.2]

/-! ### Open braces -/

theorem closes_append {m n : Nat} {s t : Text} (hs : closes m s) :
    closes (m + n) (s ++ t) = closes n t := by
  induction s generalizing m with
  | nil =>
      obtain rfl : m = 0 := by simpa using hs
      simp
  | cons c s ih =>
      rw [List.cons_append]
      rcases brace_cases c with rfl | rfl | h
      · rw [closes_open] at hs ⊢
        rw [Nat.add_right_comm]
        exact ih hs
      · cases m with
        | zero => simp at hs
        | succ m =>
            rw [closes_close_succ] at hs
            rw [Nat.add_right_comm, closes_close_succ]
            exact ih hs
      · rw [closes_other h] at hs ⊢
        exact ih hs

theorem closes_balanced_append {s : Text} (hs : isBalanced s) (n : Nat) (t : Text) :
    closes n (s ++ t) = closes n t := by
  have h := closes_append (n := n) (t := t) (m := 0) hs
  rwa [Nat.zero_add] at h

theorem closes_insert {w : Text} (hw : isBalanced w) (n : Nat) (x y : Text) :
    closes n (x ++ w ++ y) = closes n (x ++ y) := by
  induction x generalizing n with
  | nil => exact closes_balanced_append hw n y
  | cons c x ih =>
      simp only [List.cons_append, closes, ih]

theorem Free.isBalanced {t : Text} (h : Free t) : isBalanced t := by
  induction t with
  | nil => rfl
  | cons c t ih =>
      obtain ⟨⟨h1, h2⟩, h⟩ := free_cons.mp h
      rw [Brace.isBalanced, closes, if_neg h1, if_neg h2]
      exact ih h

theorem isBalanced_append {s t : Text} (hs : isBalanced s) (ht : isBalanced t) :
    isBalanced (s ++ t) := by
  rw [isBalanced, closes_balanced_append hs]
  exact ht

theorem isBalanced_braces {t : Text} (ht : isBalanced t) : isBalanced ('{' :: t ++ ['}']) := by
  have h := closes_append (n := 1) (t := ['}']) (m := 0) ht
  rw [isBalanced, List.cons_append, closes, if_pos rfl]
  exact h

theorem depth_of_closes {n : Nat} {t : Text} (h : closes n t) : depth t = -n := by
  induction t generalizing n with
  | nil =>
      obtain rfl : n = 0 := by simpa using h
      rfl
  | cons c t ih =>
      rw [depth_cons]
      rcases brace_cases c with rfl | rfl | hc
      · rw [ih (n := n + 1) (by simpa using h)]
        simp only [delta, if_true]
        omega
      · cases n with
        | zero => simp at h
        | succ n =>
            rw [ih (n := n) (by simpa using h)]
            simp only [delta, Char.reduceEq, if_false, if_true]
            omega
      · rw [ih (n := n) (by simpa [closes_other hc] using h), delta, if_neg hc.1, if_neg hc.2,
          Int.zero_add]

theorem depth_of_isBalanced {t : Text} (h : isBalanced t) : depth t = 0 := depth_of_closes h

/-! ### Partners -/

theorem exists_of_partner?_eq_some {n k : Nat} {t : Text} (h : partner? '{' '}' n t = some k) :
    ∃ inner rest, t = inner ++ '}' :: rest ∧ inner.length = k ∧ closes n inner := by
  induction t generalizing n k with
  | nil => simp at h
  | cons c t ih =>
      rcases brace_cases c with rfl | rfl | hc
      · rw [partner?_open, Option.map_eq_some_iff] at h
        obtain ⟨k, hk, rfl⟩ := h
        obtain ⟨inner, rest, rfl, rfl, hin⟩ := ih hk
        exact ⟨'{' :: inner, rest, rfl, rfl, by rwa [closes_open]⟩
      · cases n with
        | zero =>
            obtain rfl := Option.some.inj h
            exact ⟨[], t, rfl, rfl, rfl⟩
        | succ n =>
            rw [partner?_close_succ, Option.map_eq_some_iff] at h
            obtain ⟨k, hk, rfl⟩ := h
            obtain ⟨inner, rest, rfl, rfl, hin⟩ := ih hk
            exact ⟨'}' :: inner, rest, rfl, rfl, by rwa [closes_close_succ]⟩
      · rw [partner?_other hc, Option.map_eq_some_iff] at h
        obtain ⟨k, hk, rfl⟩ := h
        obtain ⟨inner, rest, rfl, rfl, hin⟩ := ih hk
        exact ⟨c :: inner, rest, rfl, rfl, by rwa [closes_other hc]⟩

/-- What closes `m` braces is passed over by the search for the partner of an outer one. -/
theorem partner?_append {m n : Nat} {s t : Text} (hs : closes m s) :
    partner? '{' '}' (m + n) (s ++ t) = (partner? '{' '}' n t).map (· + s.length) := by
  induction s generalizing m with
  | nil =>
      obtain rfl : m = 0 := by simpa using hs
      simp
  | cons c s ih =>
      have hlen (o : Option Nat) :
          (o.map (· + s.length)).map (· + 1) = o.map (· + (c :: s).length) := by
        rw [Option.map_map]
        rfl
      rw [List.cons_append, ← hlen]
      rcases brace_cases c with rfl | rfl | hc
      · rw [closes_open] at hs
        rw [partner?_open, ← ih hs, Nat.add_right_comm]
      · cases m with
        | zero => simp at hs
        | succ m =>
            rw [closes_close_succ] at hs
            rw [Nat.add_right_comm, partner?_close_succ, ih hs]
      · rw [closes_other hc] at hs
        rw [partner?_other hc, ih hs]

theorem partner?_balanced_append {s : Text} (hs : isBalanced s) (n : Nat) (t : Text) :
    partner? '{' '}' n (s ++ t) = (partner? '{' '}' n t).map (· + s.length) := by
  have h := partner?_append (n := n) (t := t) (m := 0) hs
  rwa [Nat.zero_add] at h

theorem partner?_eq_some_iff {k : Nat} {t : Text} :
    partner? '{' '}' 0 t = some k ↔
      ∃ inner rest, t = inner ++ '}' :: rest ∧ inner.length = k ∧ isBalanced inner := by
  refine ⟨exists_of_partner?_eq_some, ?_⟩
  rintro ⟨inner, rest, rfl, rfl, h⟩
  rw [partner?_balanced_append h, partner?_close_zero, Option.map_some, Nat.zero_add]

theorem partner?_insert {w : Text} (hw : isBalanced w) (n : Nat) (x y : Text) :
    (partner? '{' '}' n (x ++ w ++ y)).isSome = (partner? '{' '}' n (x ++ y)).isSome := by
  induction x generalizing n with
  | nil => rw [List.nil_append, List.nil_append, partner?_balanced_append hw, Option.isSome_map]
  | cons c x ih =>
      simp only [List.cons_append]
      rcases brace_cases c with rfl | rfl | hc
      · simp only [partner?_open, Option.isSome_map, ih]
      · cases n with
        | zero => rfl
        | succ n => simp only [partner?_close_succ, Option.isSome_map, ih]
      · simp only [partner?_other hc, Option.isSome_map, ih]

theorem isSome_partner?_append {n : Nat} {s : Text} (h : (partner? '{' '}' n s).isSome)
    (t : Text) : (partner? '{' '}' n (s ++ t)).isSome := by
  obtain ⟨k, hk⟩ := Option.isSome_iff_exists.mp h
  obtain ⟨inner, rest, rfl, rfl, hc⟩ := exists_of_partner?_eq_some hk
  have h := partner?_append (n := 0) (t := '}' :: rest ++ t) hc
  rw [Nat.add_zero] at h
  rw [List.append_assoc, h]
  rfl

/-- The rest of a text that closes one brace more holds its partner. -/
theorem isSome_partner?_of_closes {n : Nat} {t : Text} (h : closes (n + 1) t) :
    (partner? '{' '}' n t).isSome := by
  induction t generalizing n with
  | nil => simp at h
  | cons c t ih =>
      rcases brace_cases c with rfl | rfl | hc
      · rw [closes_open] at h
        rw [partner?_open, Option.isSome_map]
        exact ih h
      · cases n with
        | zero => rfl
        | succ n =>
            rw [partner?_close_succ, Option.isSome_map]
            exact ih h
      · rw [closes_other hc] at h
        rw [partner?_other hc, Option.isSome_map]
        exact ih h

theorem isSome_partner?_of_succ {n : Nat} {t : Text} (h : (partner? '{' '}' (n + 1) t).isSome) :
    (partner? '{' '}' n t).isSome := by
  induction t generalizing n with
  | nil => simp at h
  | cons c t ih =>
      rcases brace_cases c with rfl | rfl | hc
      · rw [partner?_open, Option.isSome_map] at h ⊢
        exact ih h
      · cases n with
        | zero => rfl
        | succ n =>
            rw [partner?_close_succ, Option.isSome_map] at h ⊢
            exact ih h
      · rw [partner?_other hc, Option.isSome_map] at h ⊢
        exact ih h

theorem isSome_partner?_zero {n : Nat} {t : Text} (h : (partner? '{' '}' n t).isSome) :
    (partner? '{' '}' 0 t).isSome := by
  induction n with
  | zero => exact h
  | succ n ih => exact ih (isSome_partner?_of_succ h)

/-- Every opening brace in a text that closes its braces has a partner there. -/
theorem isSome_partner?_of_closes_append {n : Nat} {s t : Text} (h : closes n (s ++ '{' :: t)) :
    (partner? '{' '}' 0 t).isSome := by
  induction s generalizing n with
  | nil =>
      rw [List.nil_append, closes_open] at h
      exact isSome_partner?_zero (isSome_partner?_of_closes h)
  | cons c s ih =>
      rw [List.cons_append] at h
      rcases brace_cases c with rfl | rfl | hc
      · exact ih (by simpa using h)
      · cases n with
        | zero => simp at h
        | succ n => exact ih (by simpa using h)
      · exact ih (by simpa [closes_other hc] using h)

/-! ### Partners at a position -/

theorem closingOf?_append (a t : Text) :
    closingOf? (a ++ '{' :: t) a.length =
      (partner? '{' '}' 0 t).map (a.length + 1 + ·) := by
  rw [closingOf?, List.drop_left]
  rfl

theorem closingOf?_eq_some_iff {t : Text} {pos close : Nat} :
    closingOf? t pos = some close ↔
      ∃ a inner b, t = a ++ '{' :: inner ++ '}' :: b ∧ isBalanced inner ∧ a.length = pos ∧
        close = pos + 1 + inner.length := by
  constructor
  · intro h
    rw [closingOf?] at h
    split at h
    · next rest hdrop =>
        obtain ⟨k, hk, rfl⟩ := Option.map_eq_some_iff.mp h
        obtain ⟨inner, b, rfl, rfl, hin⟩ := partner?_eq_some_iff.mp hk
        have hpos : pos ≤ t.length := by
          by_cases hle : pos ≤ t.length
          · exact hle
          · rw [List.drop_eq_nil_of_le (by omega)] at hdrop
            simp at hdrop
        refine ⟨t.take pos, inner, b, ?_, hin, by simp [hpos], rfl⟩
        have e := List.take_append_drop pos t
        rw [List.append_assoc, List.cons_append, ← hdrop, e]
    · simp at h
  · rintro ⟨a, inner, b, rfl, hin, rfl, rfl⟩
    rw [List.append_assoc, List.cons_append, closingOf?_append]
    have h := partner?_eq_some_iff.mpr ⟨inner, b, rfl, rfl, hin⟩
    rw [h]
    rfl

end Graft.Brace
