import Graft.Pattern.Match

/-! # Ways to match

What a pattern means, without a trail and without continuations, for the *flat* patterns, whose
repetitions repeat single characters; all patterns that this library writes itself are flat.

* `Spans p a u b`: the pattern can match the text `u` between the texts `a` and `b`.
* `ways p s`: the ways to match at a place, best first, with what groups have matched.

A way takes a text that the pattern spans (`spans_of_mem_ways`), and each text that the pattern spans
is taken by some way (`exists_mem_ways`). -/

namespace Graft.Pattern

/-- Patterns that repeat nothing but single characters. -/
def Flat : Pattern → Prop
  | empty | set _ | assert _ => True
  | seq p q | alt p q => p.Flat ∧ q.Flat
  | star _ (set _) | plus _ (set _) => True
  | group _ p => p.Flat
  | _ => False

/-! ### The texts of a pattern -/

/-- The flat pattern can match `u` between `a` and `b`. -/
def Spans : Pattern → Text → Text → Text → Prop
  | empty, _, u, _ => u = []
  | set cs, _, u, _ => ∃ c, cs.has c ∧ u = [c]
  | assert x, a, u, b => u = [] ∧ x.holds a.getLast? b.head?
  | seq p q, a, u, b => ∃ v w, u = v ++ w ∧ p.Spans a v (w ++ b) ∧ q.Spans (a ++ v) w b
  | alt p q, a, u, b => p.Spans a u b ∨ q.Spans a u b
  | star _ (set cs), _, u, _ => u.all cs.has
  | plus _ (set cs), _, u, _ => u ≠ [] ∧ u.all cs.has
  | group _ p, a, u, b => p.Spans a u b
  | _, _, _, _ => False

/-! ### The ways of a pattern -/

/-- A place in a text: the characters before it, nearest first, those behind it, and what groups
have matched, last first. -/
structure Spot where
  before : Text
  after : Text
  groups : List (Nat × Text × Text)

namespace Spot

/-- The place with a group recorded that began at `start`. -/
def close (s : Spot) (i : Nat) (start : Spot) : Spot :=
  { s with groups := (i, start.before, s.before) :: s.groups }

/-- The ways to take one character of a set. -/
def takeOne (cs : CharSet) (s : Spot) : List Spot :=
  match s.after with
  | [] => []
  | c :: t => if cs.has c then [⟨c :: s.before, t, s.groups⟩] else []

theorem length_after_of_mem_takeOne {cs : CharSet} {s s' : Spot} (h : s' ∈ s.takeOne cs) :
    s.after.length = s'.after.length + 1 := by
  rw [takeOne] at h
  split at h
  · simp at h
  · next e =>
      split at h
      · obtain rfl := List.mem_singleton.mp h
        rw [e, List.length_cons]
      · simp at h

/-- The ways to take characters of a set from `after`, which lies behind `before`. -/
def takeMany (cs : CharSet) (greedy : Bool) (gs : List (Nat × Text × Text)) :
    Text → Text → List Spot
  | before, [] => [⟨before, [], gs⟩]
  | before, c :: after =>
      let stop : Spot := ⟨before, c :: after, gs⟩
      let more := if cs.has c then takeMany cs greedy gs (c :: before) after else []
      if greedy then more ++ [stop] else stop :: more

theorem mem_takeMany {cs : CharSet} {greedy : Bool} {gs : List (Nat × Text × Text)}
    {before after : Text} {s : Spot} :
    s ∈ takeMany cs greedy gs before after ↔
      ∃ u b, after = u ++ b ∧ u.all cs.has ∧ s = ⟨u.reverse ++ before, b, gs⟩ := by
  induction after generalizing before with
  | nil =>
      simp only [takeMany, List.mem_singleton]
      constructor
      · rintro rfl
        exact ⟨[], [], rfl, rfl, rfl⟩
      · rintro ⟨u, b, h, -, rfl⟩
        obtain ⟨rfl, rfl⟩ := List.append_eq_nil_iff.mp h.symm
        rfl
  | cons c after ih =>
      have hmem : s ∈ takeMany cs greedy gs before (c :: after) ↔
          s = ⟨before, c :: after, gs⟩ ∨
            (cs.has c ∧ s ∈ takeMany cs greedy gs (c :: before) after) := by
        simp only [takeMany]
        cases greedy <;> cases hc : cs.has c <;> simp [or_comm]
      rw [hmem, ih]
      constructor
      · rintro (rfl | ⟨hc, u, b, rfl, hu, rfl⟩)
        · exact ⟨[], c :: after, rfl, rfl, rfl⟩
        · exact ⟨c :: u, b, rfl, by simp [hc, hu], by simp⟩
      · rintro ⟨u, b, h, hu, rfl⟩
        cases u with
        | nil => left; simp_all
        | cons d u =>
            obtain ⟨rfl, rfl⟩ := List.cons.inj h
            simp only [List.all_cons, Bool.and_eq_true] at hu
            exact .inr ⟨hu.1, u, b, rfl, hu.2, by simp⟩

end Spot

/-- The ways to match a flat pattern at a place, best first. -/
def ways : Pattern → Spot → List Spot
  | empty, s => [s]
  | set cs, s => s.takeOne cs
  | assert x, s => if x.holds s.before.head? s.after.head? then [s] else []
  | seq p q, s => (p.ways s).flatMap q.ways
  | alt p q, s => p.ways s ++ q.ways s
  | star greedy (set cs), s => Spot.takeMany cs greedy s.groups s.before s.after
  | plus greedy (set cs), s =>
      (s.takeOne cs).flatMap fun s => Spot.takeMany cs greedy s.groups s.before s.after
  | group i p, s => (p.ways s).map (·.close i s)
  | _, _ => []

theorem spans_of_mem_ways {p : Pattern} {a t : Text} {gs : List (Nat × Text × Text)} {s : Spot}
    (h : s ∈ p.ways ⟨a.reverse, t, gs⟩) :
    ∃ u b, t = u ++ b ∧ s.before = (a ++ u).reverse ∧ s.after = b ∧ p.Spans a u b := by
  induction p generalizing a t gs s with
  | empty =>
      obtain rfl := List.mem_singleton.mp h
      exact ⟨[], t, rfl, by simp, rfl, rfl⟩
  | set cs =>
      cases t with
      | nil => simp [ways, Spot.takeOne] at h
      | cons c t =>
          simp only [ways, Spot.takeOne] at h
          split at h
          · next hc =>
              obtain rfl := List.mem_singleton.mp h
              exact ⟨[c], t, rfl, by simp, rfl, c, hc, rfl⟩
          · simp at h
  | assert x =>
      simp only [ways] at h
      split at h
      · next hx =>
          obtain rfl := List.mem_singleton.mp h
          exact ⟨[], t, rfl, by simp, rfl, rfl, by simpa using hx⟩
      · simp at h
  | seq p q ihp ihq =>
      obtain ⟨s', h1, h2⟩ := List.mem_flatMap.mp h
      obtain ⟨before', after', gs'⟩ := s'
      obtain ⟨u, b, rfl, rfl, rfl, hp⟩ := ihp h1
      obtain ⟨v, b', rfl, e1, e2, hq⟩ := ihq h2
      exact ⟨u ++ v, b', by simp, by simpa using e1, e2, u, v, rfl, hp, hq⟩
  | alt p q ihp ihq =>
      rcases List.mem_append.mp h with h | h
      · obtain ⟨u, b, e, e1, e2, hp⟩ := ihp h
        exact ⟨u, b, e, e1, e2, .inl hp⟩
      · obtain ⟨u, b, e, e1, e2, hq⟩ := ihq h
        exact ⟨u, b, e, e1, e2, .inr hq⟩
  | group i p ih =>
      obtain ⟨s', h1, rfl⟩ := List.mem_map.mp h
      obtain ⟨u, b, e, e1, e2, hp⟩ := ih h1
      exact ⟨u, b, e, e1, e2, hp⟩
  | star greedy p _ =>
      cases p with
      | set cs =>
          obtain ⟨u, b, rfl, hu, rfl⟩ := Spot.mem_takeMany.mp h
          exact ⟨u, b, rfl, by simp, rfl, hu⟩
      | _ => simp [ways] at h
  | plus greedy p ih =>
      cases p with
      | set cs =>
          obtain ⟨s', h1, h2⟩ := List.mem_flatMap.mp h
          obtain ⟨before', after', gs'⟩ := s'
          obtain ⟨v, b, rfl, rfl, rfl, c, hc, rfl⟩ := ih (s := ⟨before', after', gs'⟩) h1
          obtain ⟨u, b', rfl, hu, rfl⟩ := Spot.mem_takeMany.mp h2
          exact ⟨c :: u, b', rfl, by simp, rfl, by simp, by simp_all⟩
      | _ => simp [ways] at h
  | copies => simp [ways] at h
  | upTo => simp [ways] at h

theorem exists_mem_ways {p : Pattern} {a u b : Text} (h : p.Spans a u b)
    (gs : List (Nat × Text × Text)) :
    ∃ gs', ⟨(a ++ u).reverse, b, gs'⟩ ∈ p.ways ⟨a.reverse, u ++ b, gs⟩ := by
  induction p generalizing a u b gs with
  | empty =>
      obtain rfl : u = [] := h
      exact ⟨gs, by simp [ways]⟩
  | set cs =>
      obtain ⟨c, hc, rfl⟩ := h
      exact ⟨gs, by simp [ways, Spot.takeOne, hc]⟩
  | assert x =>
      obtain ⟨rfl, hx⟩ := h
      exact ⟨gs, by simp [ways, hx]⟩
  | seq p q ihp ihq =>
      obtain ⟨v, w, rfl, hp, hq⟩ := h
      obtain ⟨g1, h1⟩ := ihp hp gs
      obtain ⟨g2, h2⟩ := ihq hq g1
      refine ⟨g2, List.mem_flatMap.mpr ⟨⟨(a ++ v).reverse, w ++ b, g1⟩, ?_, ?_⟩⟩
      · simpa using h1
      · simpa using h2
  | alt p q ihp ihq =>
      rcases h with h | h
      · obtain ⟨g, hg⟩ := ihp h gs
        exact ⟨g, List.mem_append_left _ hg⟩
      · obtain ⟨g, hg⟩ := ihq h gs
        exact ⟨g, List.mem_append_right _ hg⟩
  | group i p ih =>
      obtain ⟨g, hg⟩ := ih h gs
      exact ⟨_, List.mem_map.mpr ⟨_, hg, rfl⟩⟩
  | star greedy p _ =>
      cases p with
      | set cs => exact ⟨gs, Spot.mem_takeMany.mpr ⟨u, b, rfl, h, by simp⟩⟩
      | _ => exact absurd h (by simp [Spans])
  | plus greedy p _ =>
      cases p with
      | set cs =>
          obtain ⟨hu, hall⟩ := h
          cases u with
          | nil => exact absurd rfl hu
          | cons c u =>
              simp only [List.all_cons, Bool.and_eq_true] at hall
              refine ⟨gs, List.mem_flatMap.mpr ⟨⟨c :: a.reverse, u ++ b, gs⟩, ?_, ?_⟩⟩
              · simp [Spot.takeOne, hall.1]
              · exact Spot.mem_takeMany.mpr ⟨u, b, rfl, hall.2, by simp⟩
      | _ => exact absurd h (by simp [Spans])
  | copies => exact h.elim
  | upTo => exact h.elim

/-! ### Groups -/

/-- Patterns that record no group. -/
def Groupless : Pattern → Prop
  | empty | set _ | assert _ => True
  | seq p q | alt p q => p.Groupless ∧ q.Groupless
  | copies _ p | upTo _ _ p | star _ p | plus _ p => p.Groupless
  | group _ _ => False

theorem groupless_ofText (w : Text) : (ofText w).Groupless := by
  induction w with
  | nil => trivial
  | cons c w ih => exact ⟨trivial, ih⟩

theorem groups_of_mem_ways {p : Pattern} (hp : p.Groupless) {s s' : Spot} (h : s' ∈ p.ways s) :
    s'.groups = s.groups := by
  have htake : ∀ {cs : CharSet} {s s' : Spot}, s' ∈ s.takeOne cs → s'.groups = s.groups := by
    intro cs s s' h
    rw [Spot.takeOne] at h
    split at h
    · simp at h
    · split at h
      · rw [List.mem_singleton.mp h]
      · simp at h
  have hmany : ∀ {cs : CharSet} {greedy : Bool} {gs : List (Nat × Text × Text)} {x t : Text}
      {s' : Spot}, s' ∈ Spot.takeMany cs greedy gs x t → s'.groups = gs := by
    intro cs greedy gs x t s' h
    obtain ⟨-, -, -, -, rfl⟩ := Spot.mem_takeMany.mp h
    rfl
  induction p generalizing s s' with
  | empty => rw [List.mem_singleton.mp h]
  | set cs => exact htake h
  | assert x =>
      simp only [ways] at h
      split at h
      · rw [List.mem_singleton.mp h]
      · simp at h
  | seq p q ihp ihq =>
      obtain ⟨s1, h1, h2⟩ := List.mem_flatMap.mp h
      exact (ihq hp.2 h2).trans (ihp hp.1 h1)
  | alt p q ihp ihq =>
      rcases List.mem_append.mp h with h | h
      · exact ihp hp.1 h
      · exact ihq hp.2 h
  | group => exact hp.elim
  | star greedy p _ =>
      cases p with
      | set cs => exact hmany h
      | _ => simp [ways] at h
  | plus greedy p _ =>
      cases p with
      | set cs =>
          obtain ⟨s1, h1, h2⟩ := List.mem_flatMap.mp h
          exact (hmany h2).trans (htake h1)
      | _ => simp [ways] at h
  | copies => simp [ways] at h
  | upTo => simp [ways] at h

end Graft.Pattern
