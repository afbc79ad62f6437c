import Graft.Resource.Basic

/-! # Writing values by name

`overwrite` gives a value to the first of some things that has a name; things and how they hold
their values are left open.  Of several writes to one name the last one counts
(`overwrite_absorbed`), so a list of writes changes nothing once every name has the value that is
written last (`foldl_overwrite_of_settled`).  On resource entries, writing is `upsert`. -/

namespace Graft

/-- Things with names that can be given a value. -/
structure Naming (α : Type) where
  name : α → Text
  set : α → Text → α
  name_set : ∀ x v, name (set x v) = name x
  set_set : ∀ x v v', set (set x v) v' = set x v'

namespace Naming

variable {α : Type} (N : Naming α) {n m v v' : Text} {x : α} {xs ys as bs : List α}

/-- The things with the value of the first one named `n` replaced. -/
def overwrite (n v : Text) : List α → List α
  | [] => []
  | x :: xs => if N.name x = n then N.set x v :: xs else x :: overwrite n v xs

/-- The first thing named `n`. -/
def first? (n : Text) (xs : List α) : Option α := xs.find? fun x => N.name x = n

theorem overwrite_split (has : ∀ x ∈ as, N.name x ≠ n) (hx : N.name x = n) :
    N.overwrite n v (as ++ x :: bs) = as ++ N.set x v :: bs := by
  induction as with
  | nil => rw [List.nil_append, overwrite, if_pos hx]; rfl
  | cons y as ih =>
      rw [List.cons_append, overwrite, if_neg (has y (List.mem_cons_self ..)),
        ih fun x hx => has x (List.mem_cons_of_mem _ hx)]
      rfl

theorem exists_split (h : ∃ x ∈ xs, N.name x = n) :
    ∃ as x bs, xs = as ++ x :: bs ∧ N.name x = n ∧ ∀ y ∈ as, N.name y ≠ n := by
  cases hfind : N.first? n xs with
  | none =>
      obtain ⟨x, hx, hn⟩ := h
      have := List.find?_eq_none.mp hfind x hx
      simp [hn] at this
  | some x =>
      obtain ⟨hx, as, bs, rfl, has⟩ := List.find?_eq_some_iff_append.mp hfind
      exact ⟨as, x, bs, rfl, by simpa using hx, fun y hy => by simpa using has y hy⟩

theorem first?_split (has : ∀ x ∈ as, N.name x ≠ n) (hx : N.name x = n) :
    N.first? n (as ++ x :: bs) = some x := by
  refine List.find?_eq_some_iff_append.mpr ⟨by simpa using hx, as, bs, rfl, fun y hy => ?_⟩
  simpa using has y hy

theorem overwrite_of_absent (h : ∀ x ∈ xs, N.name x ≠ n) : N.overwrite n v xs = xs := by
  induction xs with
  | nil => rfl
  | cons x xs ih =>
      rw [overwrite, if_neg (h x (List.mem_cons_self ..)),
        ih fun x hx => h x (List.mem_cons_of_mem _ hx)]

theorem overwrite_append (n v : Text) (xs ys : List α) :
    N.overwrite n v (xs ++ ys) =
      if (N.first? n xs).isSome then N.overwrite n v xs ++ ys else xs ++ N.overwrite n v ys := by
  by_cases h : ∃ x ∈ xs, N.name x = n
  · obtain ⟨as, x, bs, rfl, hx, has⟩ := N.exists_split h
    rw [N.first?_split has hx, List.append_assoc, List.cons_append, N.overwrite_split has hx,
      N.overwrite_split has hx]
    simp
  · have hno : ∀ x ∈ xs, N.name x ≠ n := fun x hx hn => h ⟨x, hx, hn⟩
    have hnone : N.first? n xs = none := List.find?_eq_none.mpr fun x hx => by simpa using hno x hx
    rw [hnone]
    clear hnone h
    induction xs with
    | nil => rfl
    | cons x xs ih =>
        have ih := ih fun x hx => hno x (List.mem_cons_of_mem _ hx)
        rw [List.cons_append, overwrite, if_neg (hno x (List.mem_cons_self ..)), ih]
        rfl

theorem overwrite_absorbed (n v v' : Text) (xs : List α) :
    N.overwrite n v' (N.overwrite n v xs) = N.overwrite n v' xs := by
  induction xs with
  | nil => rfl
  | cons x xs ih =>
      by_cases hx : N.name x = n
      · simp only [overwrite, if_pos hx, N.name_set, N.set_set]
      · simp only [overwrite, if_neg hx, ih]

theorem overwrite_comm (h : n ≠ m) (v v' : Text) (xs : List α) :
    N.overwrite n v (N.overwrite m v' xs) = N.overwrite m v' (N.overwrite n v xs) := by
  induction xs with
  | nil => rfl
  | cons x xs ih =>
      by_cases hn : N.name x = n
      · have hm : N.name x ≠ m := fun e => h (hn.symm.trans e)
        simp only [overwrite, if_pos hn, if_neg hm, N.name_set]
      · by_cases hm : N.name x = m
        · simp only [overwrite, if_neg hn, if_pos hm, N.name_set]
        · simp only [overwrite, if_neg hn, if_neg hm, ih]

theorem first?_overwrite (n m v : Text) (xs : List α) :
    N.first? m (N.overwrite n v xs) =
      if n = m then (N.first? m xs).map (N.set · v) else N.first? m xs := by
  induction xs with
  | nil => simp [overwrite, first?]
  | cons x xs ih =>
      rw [first?, first?] at ih
      by_cases hx : N.name x = n
      · rw [overwrite, if_pos hx, first?, first?, List.find?_cons, List.find?_cons, N.name_set]
        by_cases h : n = m
        · simp [hx, h]
        · simp [hx, h]
      · rw [overwrite, if_neg hx, first?, first?, List.find?_cons, List.find?_cons, ih]
        by_cases h : n = m
        · subst h
          simp [hx]
        · by_cases hm : N.name x = m <;> simp [h, hm]

theorem map_name_overwrite (n v : Text) (xs : List α) :
    (N.overwrite n v xs).map N.name = xs.map N.name := by
  induction xs with
  | nil => rfl
  | cons x xs ih =>
      rw [overwrite]
      split
      · rw [List.map_cons, N.name_set, List.map_cons]
      · rw [List.map_cons, ih, List.map_cons]

/-! ### Several writes -/

/-- The value that is written last under a name. -/
def lastValue? (n : Text) : List (Text × Text) → Option Text
  | [] => none
  | w :: ws => (lastValue? n ws).or (if w.1 = n then some w.2 else none)

/-- The things after some writes, one after the other. -/
def overwriteAll (ws : List (Text × Text)) (xs : List α) : List α :=
  ws.foldl (fun xs w => N.overwrite w.1 w.2 xs) xs

/-- A write does not matter if another one to the same name follows. -/
theorem overwriteAll_absorbed {ws : List (Text × Text)} (h : (lastValue? n ws).isSome) (v : Text)
    (xs : List α) : N.overwriteAll ws (N.overwrite n v xs) = N.overwriteAll ws xs := by
  induction ws generalizing xs with
  | nil => exact absurd h Bool.false_ne_true
  | cons w ws ih =>
      simp only [overwriteAll, List.foldl_cons] at ih ⊢
      by_cases hw : w.1 = n
      · rw [hw, N.overwrite_absorbed]
      · rw [lastValue?, if_neg hw, Option.or_none] at h
        rw [N.overwrite_comm hw, ih h]

theorem overwriteAll_concat (ws : List (Text × Text)) (w : Text × Text) (xs : List α) :
    N.overwriteAll (ws ++ [w]) xs = N.overwrite w.1 w.2 (N.overwriteAll ws xs) := List.foldl_append

theorem lastValue?_concat (n : Text) (ws : List (Text × Text)) (w : Text × Text) :
    lastValue? n (ws ++ [w]) = if w.1 = n then some w.2 else lastValue? n ws := by
  induction ws with
  | nil => simp [lastValue?]
  | cons w' ws ih =>
      rw [List.cons_append, lastValue?, lastValue?, ih]
      split <;> simp

theorem lastValue?_isSome {ws : List (Text × Text)} (h : (n, v) ∈ ws) :
    (lastValue? n ws).isSome := by
  induction ws with
  | nil => exact nomatch h
  | cons w ws ih =>
      rw [lastValue?, Option.isSome_or]
      rcases List.mem_cons.mp h with rfl | h
      · simp
      · rw [ih h, Bool.true_or]

/-- Every name has the value that is written last. -/
def Settled (ws : List (Text × Text)) (xs : List α) : Prop :=
  ∀ n v, lastValue? n ws = some v → ∃ x, N.first? n xs = some x ∧ N.set x v = x

variable {N} in
/-- One more write. -/
theorem Settled.concat {ws : List (Text × Text)} (h : N.Settled ws xs)
    (hothers : ∀ m, m ≠ n → N.first? m ys = N.first? m xs)
    (hself : ∃ x, N.first? n ys = some x ∧ N.set x v = x) : N.Settled (ws ++ [(n, v)]) ys := by
  intro m v' hm
  rw [lastValue?_concat] at hm
  split at hm
  · next hn =>
      obtain rfl := Option.some.inj hm
      rw [← hn]
      exact hself
  · next hn =>
      rw [hothers m (Ne.symm hn)]
      exact h m v' hm

theorem overwrite_of_first? (h : N.first? n xs = some x) (hx : N.set x v = x) :
    N.overwrite n v xs = xs := by
  obtain ⟨hname, as, bs, rfl, has⟩ := List.find?_eq_some_iff_append.mp h
  rw [N.overwrite_split (fun y hy => by simpa using has y hy) (by simpa using hname), hx]

/-- Writing what is there already changes nothing. -/
theorem overwriteAll_of_settled {ws : List (Text × Text)} (h : N.Settled ws xs) :
    N.overwriteAll ws xs = xs := by
  induction ws with
  | nil => rfl
  | cons w ws ih =>
      have hws : N.Settled ws xs := by
        intro n v hv
        refine h n v ?_
        rw [lastValue?, hv, Option.some_or]
      rw [overwriteAll, List.foldl_cons]
      cases hlast : lastValue? w.1 ws with
      | some v =>
          have hsome : (lastValue? w.1 ws).isSome := by
            rw [hlast]
            rfl
          exact (N.overwriteAll_absorbed hsome w.2 xs).trans (ih hws)
      | none =>
          obtain ⟨x, hfirst, hx⟩ := h w.1 w.2 (by simp [lastValue?, hlast])
          rw [N.overwrite_of_first? hfirst hx]
          exact ih hws

end Naming

/-! ### Entries -/

namespace ResourceEntry

theorem upsert_of_absent {e : ResourceEntry} {xs : List ResourceEntry}
    (h : ∀ x ∈ xs, x.name ≠ e.name) : e.upsert xs = xs ++ [e] := by
  induction xs with
  | nil => rfl
  | cons x xs ih =>
      rw [upsert, if_neg (h x (List.mem_cons_self ..)),
        ih fun x hx => h x (List.mem_cons_of_mem _ hx)]
      rfl

theorem upsert_split {e x : ResourceEntry} {as bs : List ResourceEntry}
    (has : ∀ x ∈ as, x.name ≠ e.name) (hx : x.name = e.name) :
    e.upsert (as ++ x :: bs) = as ++ { x with value := e.value } :: bs := by
  induction as with
  | nil => rw [List.nil_append, upsert, if_pos hx]; rfl
  | cons y as ih =>
      rw [List.cons_append, upsert, if_neg (has y (List.mem_cons_self ..)),
        ih fun x hx => has x (List.mem_cons_of_mem _ hx)]
      rfl

end ResourceEntry

end Graft
