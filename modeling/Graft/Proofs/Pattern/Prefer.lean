import Graft.Proofs.Pattern.Plain

/-! # The preferred way

Of the ways of a flat pattern the first one counts that what follows can go on from.
`prefer p k s` is what `k` makes of that way.  There is one equation for each part from which the
patterns of this library are written: a literal has one way, a greedy run of characters goes as far
as it can, and a lazy one stops as soon as what follows can go on. -/

namespace Graft.Pattern

variable {α : Type} {p q : Pattern} {k : Spot → Option α}

/-- What `k` makes of the first way of the pattern that it accepts. -/
def prefer (p : Pattern) (k : Spot → Option α) (s : Spot) : Option α := (p.ways s).findSome? k

theorem head?_ways (p : Pattern) (s : Spot) : (p.ways s).head? = p.prefer some s := by
  rw [prefer]
  cases p.ways s <;> rfl

theorem prefer_seq (p q : Pattern) (k : Spot → Option α) (s : Spot) :
    (p ++ q).prefer k s = p.prefer (q.prefer k) s :=
  findSome?_flatMap k q.ways (p.ways s)

theorem prefer_alt (p q : Pattern) (k : Spot → Option α) (s : Spot) :
    (alt p q).prefer k s = (p.prefer k s).or (q.prefer k s) := by
  rw [prefer, ways, List.findSome?_append]
  rfl

theorem prefer_group (i : Nat) (p : Pattern) (k : Spot → Option α) (s : Spot) :
    (group i p).prefer k s = p.prefer (fun s' => k (s'.close i s)) s := by
  rw [prefer, ways, List.findSome?_map]
  rfl

/-! ### Literals -/

variable {before t b u w : Text} {gs : List (Nat × Text × Text)}

theorem ways_ofText_cons (c : Char) (w : Text) (before t : Text) (gs : List (Nat × Text × Text)) :
    (ofText (c :: w)).ways ⟨before, t, gs⟩ =
      match t with
      | [] => []
      | d :: t => if d = c then (ofText w).ways ⟨d :: before, t, gs⟩ else [] := by
  rw [ofText, ways, ways, Spot.takeOne]
  cases t with
  | nil => rfl
  | cons d t =>
      simp only [has_single]
      split
      · rw [List.flatMap_cons, List.flatMap_nil, List.append_nil]
      · rfl

theorem ways_ofText (w before b : Text) (gs : List (Nat × Text × Text)) :
    (ofText w).ways ⟨before, w ++ b, gs⟩ = [⟨w.reverse ++ before, b, gs⟩] := by
  induction w generalizing before with
  | nil => rfl
  | cons c w ih =>
      rw [ways_ofText_cons, List.cons_append]
      simp only [if_true]
      rw [ih, List.reverse_cons, List.append_assoc]
      rfl

theorem ways_ofText_eq_nil (h : ¬w <+: t) (before : Text) (gs : List (Nat × Text × Text)) :
    (ofText w).ways ⟨before, t, gs⟩ = [] := by
  induction w generalizing before t with
  | nil => exact absurd (List.nil_prefix) h
  | cons c w ih =>
      rw [ways_ofText_cons]
      cases t with
      | nil => rfl
      | cons d t =>
          simp only
          split
          · next hd =>
              refine ih (fun hw => h ?_) _
              rw [hd]
              exact List.cons_prefix_cons.mpr ⟨rfl, hw⟩
          · rfl

theorem prefer_lit {s : String} (hs : s.toList = w) :
    (lit s).prefer k ⟨before, w ++ b, gs⟩ = k ⟨w.reverse ++ before, b, gs⟩ := by
  rw [prefer, lit, hs, ways_ofText, List.findSome?_singleton]

theorem prefer_lit_eq_none {s : String} (h : ¬s.toList <+: t) :
    (lit s).prefer k ⟨before, t, gs⟩ = none := by
  rw [prefer, lit, ways_ofText_eq_nil h, List.findSome?_nil]

/-! ### Runs of characters -/

variable {cs : CharSet} {x : α}

theorem findSome?_takeMany_nil (greedy : Bool) :
    (Spot.takeMany cs greedy gs before []).findSome? k = k ⟨before, [], gs⟩ := by
  rw [Spot.takeMany, List.findSome?_singleton]

theorem findSome?_takeMany_cons (greedy : Bool) (c : Char) (t : Text) :
    (Spot.takeMany cs greedy gs before (c :: t)).findSome? k =
      let more := if cs.has c then (Spot.takeMany cs greedy gs (c :: before) t).findSome? k else none
      if greedy then more.or (k ⟨before, c :: t, gs⟩) else (k ⟨before, c :: t, gs⟩).or more := by
  have h := findSome?_takeMany k cs greedy ⟨before, c :: t, gs⟩
  simp only at h ⊢
  rw [h, Spot.takeOne]
  simp only
  cases cs.has c <;> simp

/-- A greedy run goes to the end of its characters if what follows can go on there. -/
theorem findSome?_greedy (hu : u.all cs.has) (hb : ∀ c, b.head? = some c → cs.has c = false)
    (hk : k ⟨u.reverse ++ before, b, gs⟩ = some x) :
    (Spot.takeMany cs true gs before (u ++ b)).findSome? k = some x := by
  induction u generalizing before with
  | nil =>
      cases b with
      | nil => rw [List.nil_append, findSome?_takeMany_nil, ← hk]; rfl
      | cons c b =>
          rw [List.nil_append, findSome?_takeMany_cons, hb c rfl]
          simpa using hk
  | cons c u ih =>
      rw [List.all_cons, Bool.and_eq_true] at hu
      rw [List.cons_append, findSome?_takeMany_cons, hu.1]
      have hk' : k ⟨u.reverse ++ (c :: before), b, gs⟩ = some x := by
        rw [← hk, List.reverse_cons, List.append_assoc]
        rfl
      simp only [if_true, ih hu.2 hk', Option.some_or]

/-- A lazy run goes on as long as what follows cannot. -/
theorem findSome?_lazy (hu : u.all cs.has)
    (hstop : ∀ v c w, u = v ++ c :: w → k ⟨v.reverse ++ before, c :: w ++ b, gs⟩ = none)
    (hk : k ⟨u.reverse ++ before, b, gs⟩ = some x) :
    (Spot.takeMany cs false gs before (u ++ b)).findSome? k = some x := by
  induction u generalizing before with
  | nil =>
      cases b with
      | nil => rw [List.nil_append, findSome?_takeMany_nil, ← hk]; rfl
      | cons c b =>
          rw [List.nil_append, findSome?_takeMany_cons]
          have hk' : k ⟨before, c :: b, gs⟩ = some x := hk
          simp only [Bool.false_eq_true, if_false, hk', Option.some_or]
  | cons c u ih =>
      rw [List.all_cons, Bool.and_eq_true] at hu
      have hfirst : k ⟨before, c :: (u ++ b), gs⟩ = none := hstop [] c u rfl
      have hstop' : ∀ v d w, u = v ++ d :: w →
          k ⟨v.reverse ++ (c :: before), d :: w ++ b, gs⟩ = none := by
        intro v d w e
        have h := hstop (c :: v) d w (by rw [e]; rfl)
        rwa [List.reverse_cons, List.append_assoc] at h
      have hk' : k ⟨u.reverse ++ (c :: before), b, gs⟩ = some x := by
        rw [← hk, List.reverse_cons, List.append_assoc]
        rfl
      rw [List.cons_append, findSome?_takeMany_cons, hu.1]
      simp only [Bool.false_eq_true, if_false, if_true, hfirst, Option.none_or, ih hu.2 hstop' hk']

theorem prefer_star_greedy (hu : u.all cs.has) (hb : ∀ c, b.head? = some c → cs.has c = false)
    (hk : k ⟨u.reverse ++ before, b, gs⟩ = some x) :
    (star true (set cs)).prefer k ⟨before, u ++ b, gs⟩ = some x :=
  findSome?_greedy hu hb hk

theorem prefer_star_lazy (hu : u.all cs.has)
    (hstop : ∀ v c w, u = v ++ c :: w → k ⟨v.reverse ++ before, c :: w ++ b, gs⟩ = none)
    (hk : k ⟨u.reverse ++ before, b, gs⟩ = some x) :
    (star false (set cs)).prefer k ⟨before, u ++ b, gs⟩ = some x :=
  findSome?_lazy hu hstop hk

theorem prefer_plus_greedy (hne : u ≠ []) (hu : u.all cs.has)
    (hb : ∀ c, b.head? = some c → cs.has c = false)
    (hk : k ⟨u.reverse ++ before, b, gs⟩ = some x) :
    (plus true (set cs)).prefer k ⟨before, u ++ b, gs⟩ = some x := by
  cases u with
  | nil => exact absurd rfl hne
  | cons c u =>
      rw [List.all_cons, Bool.and_eq_true] at hu
      have hk' : k ⟨u.reverse ++ (c :: before), b, gs⟩ = some x := by
        rw [← hk, List.reverse_cons, List.append_assoc]
        rfl
      rw [prefer, ways, findSome?_flatMap, Spot.takeOne, List.cons_append]
      simp only [hu.1, if_true, List.findSome?_singleton]
      exact findSome?_greedy hu.2 hb hk'

end Graft.Pattern
