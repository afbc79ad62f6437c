import Graft.Proofs.Pattern.Run

/-! # What a search finds

The search of a flat pattern stops at the first place where the pattern can match, with the best way
to match there: `find?_eq_some_iff` says so in terms of `First`, and `find?_eq_none_iff` that nothing
is found exactly when the pattern spans no piece of the text. -/

namespace Graft

/-- The match that a way stands for which began behind `before`. -/
def Match.ofSpot (before : Text) (s : Pattern.Spot) : Match :=
  ⟨before.length, s.before.length, s.groups.map fun g => (g.1, g.2.1.length, g.2.2.length)⟩

namespace Pattern

variable {p : Pattern}

/-! ### Attempts and searches -/

/-- What the marks of a search mean: the choice is one of the pattern's and leads to no match. -/
def Hopeless (p : Pattern) : Nat → Goal := fun l before t =>
  l < p.choices ∧ Dead p (fun _ _ => True) l before t

theorem agrees_hopeless (p : Pattern) : Agrees (Hopeless p) p (fun _ _ => True) 0 := by
  intro l hl before t
  simp only [Hopeless, Nat.zero_add, hl, true_and]

theorem ready_ofText (p : Pattern) (before t : Text) :
    Ready (Hopeless p) 0 ⟨before, .ofText t, []⟩ := by
  refine ⟨fun l _ h => by simp [Trail.ofText] at h, ?_⟩
  simp only [Trail.ofText]
  induction t generalizing before with
  | nil => trivial
  | cons c t ih => exact ⟨fun l h => by simp at h, ih (c :: before)⟩

theorem text_ofText (t : Text) : (Trail.ofText t).text = t := by
  simp [Trail.ofText, Trail.text, Function.comp_def]

/-- The best way at a place, as a match. -/
def bestAt (p : Pattern) (before t : Text) : Option Match :=
  (p.ways ⟨before, t, []⟩).head?.map (.ofSpot before)

theorem matchAt_meets (hp : p.Flat) {before : Text} {trail : Trail}
    (h : Ready (Hopeless p) 0 ⟨before, trail, []⟩) :
    Meets (Hopeless p) (p.bestAt before trail.text) ⟨before, trail, []⟩ (p.matchAt before trail) := by
  have hhead : p.bestAt before trail.text =
      (p.ways (State.spot ⟨before, trail, []⟩)).findSome? fun s => some (.ofSpot before s) := by
    rw [bestAt, State.spot]
    cases p.ways ⟨before, trail.text, []⟩ <;> rfl
  rw [hhead]
  have hf : Decides (fun s => some (Match.ofSpot before s)) fun _ _ => True := fun s => by simp
  have hk : Answers (Hopeless p) (0 + p.choices) (fun s => some (Match.ofSpot before s))
      fun s => .found (.ofState before s) := fun s _ => rfl
  exact run_meets hp hf hk (agrees_hopeless p) h

/-- The best way at the leftmost place that has one, as a match. -/
def leftmost (p : Pattern) (before : Text) : Text → Option Match
  | [] => p.bestAt before []
  | c :: t => (p.bestAt before (c :: t)).or (p.leftmost (c :: before) t)

theorem search_eq (hp : p.Flat) {before t : Text} {trail : Trail}
    (h : Ready (Hopeless p) 0 ⟨before, trail, []⟩) (ht : trail.text = t) :
    p.search before trail t = p.leftmost before t := by
  induction t generalizing before trail with
  | nil =>
      have hm := matchAt_meets hp h
      rw [search, leftmost, ← ht]
      revert hm
      cases p.matchAt before trail with
      | found m => exact Eq.symm
      | failed trail' => exact fun hm => hm.1.symm
  | cons c t ih =>
      have hm := matchAt_meets hp h
      rw [search, leftmost, ← ht]
      revert hm
      cases p.matchAt before trail with
      | found m =>
          intro hm
          rw [show p.bestAt before trail.text = some m from hm]
          rfl
      | failed trail' =>
          rintro ⟨hnone, htext, -, hrest⟩
          obtain ⟨here, rest⟩ := trail'
          have htext' : rest.map (·.1) = c :: t := htext.trans ht
          cases rest with
          | nil => simp at htext'
          | cons x rest =>
              obtain ⟨d, tried⟩ := x
              obtain ⟨rfl, rfl⟩ := List.cons.inj htext'
              rw [hnone, Option.none_or]
              exact ih ⟨fun l _ => hrest.1 l, hrest.2⟩ rfl

theorem findFrom?_eq (hp : p.Flat) (t : Text) (pos : Nat) :
    p.findFrom? t pos = p.leftmost (t.take pos).reverse (t.drop pos) :=
  search_eq hp (ready_ofText p _ _) (text_ofText _)

theorem find?_eq_leftmost (hp : p.Flat) (t : Text) : p.find? t = p.leftmost [] t :=
  findFrom?_eq hp t 0

/-! ### Places of matches -/

theorem bestAt_eq_none_iff {before t : Text} :
    p.bestAt before t = none ↔ ∀ u b, t = u ++ b → ¬p.Spans before.reverse u b := by
  rw [bestAt, Option.map_eq_none_iff, List.head?_eq_none_iff]
  constructor
  · rintro h u b rfl hu
    obtain ⟨gs, hgs⟩ := exists_mem_ways hu []
    rw [List.reverse_reverse, h] at hgs
    simp at hgs
  · intro h
    refine List.eq_nil_iff_forall_not_mem.mpr fun s hs => ?_
    obtain ⟨u, b, hub, -, -, hu⟩ := spans_of_mem_ways (a := before.reverse) (by simpa using hs)
    exact h u b hub hu

theorem leftmost_eq_none_iff {before t : Text} :
    p.leftmost before t = none ↔
      ∀ v u b, t = v ++ u ++ b → ¬p.Spans (before.reverse ++ v) u b := by
  induction t generalizing before with
  | nil =>
      rw [leftmost, bestAt_eq_none_iff]
      constructor
      · intro h v u b e
        obtain ⟨rfl, rfl, rfl⟩ : v = [] ∧ u = [] ∧ b = [] := by simpa using e.symm
        simpa using h [] [] rfl
      · intro h u b e
        simpa using h [] u b e
  | cons c t ih =>
      rw [leftmost, Option.or_eq_none_iff, bestAt_eq_none_iff, ih]
      constructor
      · rintro ⟨h1, h2⟩ v u b e
        cases v with
        | nil => simpa using h1 u b e
        | cons d v =>
            obtain ⟨rfl, e'⟩ := List.cons.inj e
            simpa using h2 v u b e'
      · intro h
        refine ⟨fun u b e => by simpa using h [] u b e, fun v u b e => ?_⟩
        simpa using h (c :: v) u b (by simp [e])

theorem leftmost_eq_some {before t : Text} {m : Match} (h : p.leftmost before t = some m) :
    ∃ v w, t = v ++ w ∧ p.bestAt (v.reverse ++ before) w = some m ∧
      ∀ v' u b, t = v' ++ u ++ b → p.Spans (before.reverse ++ v') u b → v.length ≤ v'.length := by
  induction t generalizing before with
  | nil => exact ⟨[], [], rfl, h, fun _ _ _ _ _ => Nat.zero_le _⟩
  | cons c t ih =>
      rw [leftmost] at h
      rcases Option.or_eq_some_iff.mp h with h | ⟨hnone, h⟩
      · exact ⟨[], c :: t, rfl, h, fun _ _ _ _ _ => Nat.zero_le _⟩
      · obtain ⟨v, w, rfl, hbest, hleast⟩ := ih h
        refine ⟨c :: v, w, rfl, by simpa using hbest, fun v' u b e hu => ?_⟩
        cases v' with
        | nil =>
            rw [List.append_nil] at hu
            exact absurd hu (bestAt_eq_none_iff.mp hnone u b e)
        | cons d v' =>
            obtain ⟨rfl, e'⟩ := List.cons.inj e
            exact Nat.succ_le_succ (hleast v' u b e' (by simpa using hu))

/-! ### The first match -/

/-- The best way takes what the pattern spans. -/
theorem spans_of_best {a u b : Text} {gs : List (Nat × Text × Text)}
    (h : (p.ways ⟨a.reverse, u ++ b, []⟩).head? = some ⟨(a ++ u).reverse, b, gs⟩) :
    p.Spans a u b := by
  obtain ⟨u', b', e, -, h2, hu⟩ := spans_of_mem_ways (List.mem_of_mem_head? h)
  obtain rfl : b = b' := h2
  obtain rfl : u = u' := List.append_cancel_right e
  exact hu

/-- The first match of a pattern: it takes `u` between `a` and `b`, where it prefers to. -/
structure First (p : Pattern) (t a u b : Text) (gs : List (Nat × Text × Text)) : Prop where
  split : t = a ++ u ++ b
  best : (p.ways ⟨a.reverse, u ++ b, []⟩).head? = some ⟨(a ++ u).reverse, b, gs⟩
  least : ∀ a' u' b', t = a' ++ u' ++ b' → p.Spans a' u' b' → a.length ≤ a'.length

theorem First.spans {t a u b : Text} {gs : List (Nat × Text × Text)} (h : p.First t a u b gs) :
    p.Spans a u b := spans_of_best h.best

theorem find?_eq_none_iff (hp : p.Flat) {t : Text} :
    p.find? t = none ↔ ∀ a u b, t = a ++ u ++ b → ¬p.Spans a u b := by
  rw [find?_eq_leftmost hp, leftmost_eq_none_iff]
  rfl

theorem exists_first_of_find?_eq_some (hp : p.Flat) {t : Text} {m : Match}
    (h : p.find? t = some m) :
    ∃ a u b gs, p.First t a u b gs ∧ m = .ofSpot a.reverse ⟨(a ++ u).reverse, b, gs⟩ := by
  rw [find?_eq_leftmost hp] at h
  obtain ⟨a, w, rfl, hbest, hleast⟩ := leftmost_eq_some h
  rw [List.append_nil, bestAt, Option.map_eq_some_iff] at hbest
  obtain ⟨⟨before, after, gs⟩, hhead, rfl⟩ := hbest
  obtain ⟨u, b, rfl, h1, h2, -⟩ := spans_of_mem_ways (List.mem_of_mem_head? hhead)
  obtain rfl : before = (a ++ u).reverse := h1
  obtain rfl : after = b := h2
  exact ⟨a, u, after, gs, ⟨by simp, hhead, hleast⟩, rfl⟩

/-- The place of the first match is the first place where the pattern spans something. -/
theorem exists_first (hp : p.Flat) {t a u b : Text} (h : t = a ++ u ++ b) (hu : p.Spans a u b)
    (hleast : ∀ a' u' b', t = a' ++ u' ++ b' → p.Spans a' u' b' → a.length ≤ a'.length) :
    ∃ u' b' gs, u ++ b = u' ++ b' ∧ p.First t a u' b' gs ∧
      p.find? t = some (.ofSpot a.reverse ⟨(a ++ u').reverse, b', gs⟩) := by
  cases hfind : p.find? t with
  | none => exact absurd hu ((find?_eq_none_iff hp).mp hfind a u b h)
  | some m =>
      obtain ⟨a', u', b', gs, hfirst, rfl⟩ := exists_first_of_find?_eq_some hp hfind
      have hlen : a.length = a'.length :=
        Nat.le_antisymm (hleast a' u' b' hfirst.split hfirst.spans) (hfirst.least a u b h hu)
      have e : a ++ (u ++ b) = a' ++ (u' ++ b') := by
        rw [← List.append_assoc, ← List.append_assoc, ← h, hfirst.split]
      obtain ⟨rfl, e'⟩ := List.append_inj e hlen
      exact ⟨u', b', gs, e', hfirst, rfl⟩

theorem occursIn_iff (hp : p.Flat) {t : Text} :
    p.occursIn t ↔ ∃ a u b, t = a ++ u ++ b ∧ p.Spans a u b := by
  rw [occursIn, Option.isSome_iff_ne_none, Ne, find?_eq_none_iff hp]
  constructor
  · intro h
    refine Classical.byContradiction fun hno => h fun a u b e hu => hno ⟨a, u, b, e, hu⟩
  · rintro ⟨a, u, b, e, hu⟩ h
    exact h a u b e hu

end Pattern

end Graft
