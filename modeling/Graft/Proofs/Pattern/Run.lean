import Graft.Proofs.Pattern.Ways

/-! # What a run finds

A run of a flat pattern finds what its ways lead to: the continuation is asked about the ways in
their order until it accepts one (`run_meets`).  The trail is what makes this an argument: a choice
that was tried before is skipped, which is right because all choices on the trail are *dead*, that
is, none of their ways is accepted.  `Ready` says this of the places from here on, and a failed run
leaves a trail of which it is true again (`Meets`). -/

namespace Graft.Pattern

/-! ### Live places and dead choices -/

/-- What the characters before a place, nearest first, and those behind it can satisfy. -/
abbrev Goal := Text → Text → Prop

/-- The pattern has a way from this place to one that satisfies the goal. -/
def Live (p : Pattern) (ok : Goal) : Goal := fun before t =>
  ∃ u b, t = u ++ b ∧ p.Spans before.reverse u b ∧ ok (u.reverse ++ before) b

/-- The choice `l` of the pattern, counted from its first, leads nowhere at a place. -/
def Dead : Pattern → Goal → Nat → Goal
  | seq p q, ok, l, before, t =>
      if l < p.choices then Dead p (q.Live ok) l before t else Dead q ok (l - p.choices) before t
  | alt p q, ok, l, before, t =>
      if l = 0 then ¬(alt p q).Live ok before t
      else if l - 1 < p.choices then Dead p ok (l - 1) before t
      else Dead q ok (l - 1 - p.choices) before t
  | star greedy p, ok, _, before, t => ¬(star greedy p).Live ok before t
  | plus greedy p, ok, _, before, t => ¬(star greedy p).Live ok before t
  | group _ p, ok, l, before, t => Dead p ok l before t
  | _, _, _, _, _ => True

/-- Some way of the pattern satisfies the goal exactly where the pattern is live. -/
theorem exists_way_iff {p : Pattern} {ok : Goal} {before t : Text}
    {gs : List (Nat × Text × Text)} :
    (∃ s ∈ p.ways ⟨before, t, gs⟩, ok s.before s.after) ↔ p.Live ok before t := by
  constructor
  · rintro ⟨s, hs, hok⟩
    obtain ⟨u, b, rfl, h1, h2, hp⟩ := spans_of_mem_ways (a := before.reverse) (by simpa using hs)
    refine ⟨u, b, rfl, hp, ?_⟩
    rw [h1, h2] at hok
    simpa using hok
  · rintro ⟨u, b, rfl, hp, hok⟩
    obtain ⟨gs', h⟩ := exists_mem_ways hp gs
    exact ⟨_, by simpa using h, by simpa using hok⟩

/-- A function on places that answers exactly where a goal is satisfied. -/
def Decides {β : Type} (f : Spot → Option β) (ok : Goal) : Prop :=
  ∀ s, (f s).isSome ↔ ok s.before s.after

theorem Decides.ways {β : Type} {f : Spot → Option β} {ok : Goal} (h : Decides f ok)
    (p : Pattern) : Decides (fun s => (p.ways s).findSome? f) (p.Live ok) := by
  intro s
  have hways : (∃ s' ∈ p.ways s, ok s'.before s'.after) ↔ p.Live ok s.before s.after :=
    exists_way_iff
  rw [List.findSome?_isSome_iff, ← hways]
  simp only [h _]

theorem Decides.eq_none {β : Type} {f : Spot → Option β} {ok : Goal} (h : Decides f ok) {s : Spot}
    (hs : ¬ok s.before s.after) : f s = none := by
  rw [← Option.not_isSome_iff_eq_none, h s]
  exact hs

theorem Decides.not_of_eq_none {β : Type} {f : Spot → Option β} {ok : Goal} (h : Decides f ok)
    {s : Spot} (hs : f s = none) : ¬ok s.before s.after := by
  rw [← h s, hs]
  exact Bool.false_ne_true

/-! ### Trails of dead choices -/

/-- The text from a place on. -/
def Trail.text (t : Trail) : Text := t.rest.map (·.1)

/-- Where an attempt stands. -/
def State.spot (s : State) : Spot := ⟨s.before, s.trail.text, s.groups⟩

section

variable {α : Type} (D : Nat → Goal)

/-- All choices behind the next characters are dead. -/
def Spent : Text → List (Char × Nat) → Prop
  | _, [] => True
  | before, (c, tried) :: rest =>
      (∀ l, tried.testBit l → D l (c :: before) (rest.map (·.1))) ∧ Spent (c :: before) rest

/-- The choices from `label` on that have been tried here are dead, and so are all that have been
tried behind. -/
def Ready (label : Nat) (s : State) : Prop :=
  (∀ l, label ≤ l → s.trail.here.testBit l → D l s.before s.trail.text) ∧
    Spent D s.before s.trail.rest

/-- An outcome is the answer asked for, or a failure that has added only dead choices. -/
def Meets (answer : Option α) (s : State) : Outcome α → Prop
  | .found r => answer = some r
  | .failed t => answer = none ∧ t.text = s.trail.text ∧
      (∀ l, t.here.testBit l → s.trail.here.testBit l ∨ D l s.before s.trail.text) ∧
      Spent D s.before t.rest

variable {D}

theorem Ready.mono {label label' : Nat} {s : State} (h : Ready D label s) (hl : label ≤ label') :
    Ready D label' s :=
  ⟨fun l h1 h2 => h.1 l (Nat.le_trans hl h1) h2, h.2⟩

theorem Ready.meets_stop {label : Nat} {s : State} (h : Ready D label s) :
    Meets (α := α) D none s (.failed s.trail) :=
  ⟨rfl, rfl, fun _ hl => .inl hl, h.2⟩

/-- A state behind the next character, where everything tried is dead. -/
theorem Ready.step {label : Nat} {before : Text} {here tried : Nat} {c : Char}
    {rest : List (Char × Nat)} {gs : List (Nat × Text × Text)}
    (h : Ready D label ⟨before, ⟨here, (c, tried) :: rest⟩, gs⟩) :
    Ready D 0 ⟨c :: before, ⟨tried, rest⟩, gs⟩ :=
  ⟨fun l _ hl => h.2.1 l hl, h.2.2⟩

/-- A continuation that, at places where the choices from `label` on are ready, ends as `f`
answers. -/
def Answers (D : Nat → Goal) (label : Nat) (f : Spot → Option α) (k : State → Outcome α) : Prop :=
  ∀ s, Ready D label s → Meets D (f s.spot) s (k s)

/-! ### Taking a character and choosing -/

theorem meets_take {label : Nat} {cs : CharSet} {f : Spot → Option α} {k : State → Outcome α}
    {s : State} (hs : Ready D label s)
    (hk : ∀ s', s'.spot ∈ s.spot.takeOne cs → Ready D 0 s' → Meets D (f s'.spot) s' (k s')) :
    Meets D ((s.spot.takeOne cs).findSome? f) s (s.take cs k) := by
  obtain ⟨before, ⟨here, rest⟩, gs⟩ := s
  cases rest with
  | nil => exact hs.meets_stop
  | cons x rest =>
      obtain ⟨c, tried⟩ := x
      simp only [State.take, State.spot, Trail.text, List.map_cons, Spot.takeOne] at hk ⊢
      cases hc : cs.has c with
      | false => simpa [hc] using hs.meets_stop
      | true =>
          have h := hk ⟨c :: before, ⟨tried, rest⟩, gs⟩ (by simp [hc]) hs.step
          simp only [if_true, List.findSome?_singleton]
          revert h
          cases k ⟨c :: before, ⟨tried, rest⟩, gs⟩ with
          | found r => exact id
          | failed t =>
              rintro ⟨h1, h2, h3, h4⟩
              refine ⟨h1, ?_, fun l hl => .inl hl, ?_, h4⟩
              · simpa [Trail.text] using h2
              · intro l hl
                have h2' : t.rest.map (·.1) = rest.map (·.1) := h2
                rw [h2']
                exact (h3 l hl).elim (hs.2.1 l) id

theorem testBit_mark {s : State} {label l : Nat} (h : (s.mark label).trail.here.testBit l) :
    s.trail.here.testBit l ∨ l = label := by
  simp only [State.mark, Nat.testBit_or, Nat.testBit_shiftLeft, Bool.or_eq_true, Bool.and_eq_true,
    decide_eq_true_eq, Nat.testBit_one_eq_true_iff_self_eq_zero] at h
  rcases h with h | ⟨h1, h2⟩
  · exact .inl h
  · exact .inr (by omega)

theorem Ready.mark {label : Nat} {s : State} (hs : Ready D label s) :
    Ready D (label + 1) (s.mark label) := by
  refine ⟨fun l hl hbit => ?_, hs.2⟩
  rcases testBit_mark hbit with h | rfl
  · exact hs.1 l (by omega) h
  · omega

/-- Two ways after each other.  The choice itself is dead afterwards because neither was
accepted. -/
theorem meets_choose {label : Nat} {first second : State → Outcome α} {x y : Option α} {s : State}
    (hs : Ready D label s) (hskip : D label s.before s.trail.text → x = none ∧ y = none)
    (hdead : x = none → y = none → D label s.before s.trail.text)
    (h1 : ∀ s', s'.spot = s.spot → Ready D (label + 1) s' → Meets D x s' (first s'))
    (h2 : ∀ s', s'.spot = s.spot → Ready D (label + 1) s' → Meets D y s' (second s')) :
    Meets D (x.or y) s (s.choose label first second) := by
  rw [State.choose]
  cases htried : s.hasTried label with
  | true =>
      obtain ⟨rfl, rfl⟩ := hskip (hs.1 label (Nat.le_refl _) htried)
      exact hs.meets_stop
  | false =>
      have hm := h1 (s.mark label) rfl hs.mark
      simp only [Bool.false_eq_true, if_false]
      revert hm
      cases first (s.mark label) with
      | found r => rintro rfl; exact rfl
      | failed t =>
          rintro ⟨rfl, ht, hhere, hrest⟩
          have ht' : t.text = s.trail.text := ht
          have hspot : State.spot { s with trail := t } = s.spot := by
            simp only [State.spot, ht']
          have hdeadly : ∀ l, t.here.testBit l →
              (s.trail.here.testBit l ∨ l = label) ∨ D l s.before s.trail.text :=
            fun l hl => (hhere l hl).imp_left testBit_mark
          have hready : Ready D (label + 1) { s with trail := t } := by
            refine ⟨fun l hl hbit => ?_, hrest⟩
            rw [show ({ s with trail := t } : State).trail.text = s.trail.text from ht']
            rcases hdeadly l hbit with (h | rfl) | h
            · exact hs.1 l (by omega) h
            · omega
            · exact h
          have hm := h2 _ hspot hready
          change Meets D y s (second { s with trail := t })
          revert hm
          cases second { s with trail := t } with
          | found r => exact id
          | failed t2 =>
              rintro ⟨rfl, e, hhere2, hrest2⟩
              refine ⟨rfl, e.trans ht', fun l hl => ?_, hrest2⟩
              rcases hhere2 l hl with h | h
              · rcases hdeadly l h with (h | rfl) | h
                · exact .inl h
                · exact .inr (hdead rfl rfl)
                · exact .inr h
              · exact .inr (ht' ▸ h)

/-! ### Repetitions -/

theorem findSome?_flatMap {β γ : Type} (f : β → Option α) (g : γ → List β) (l : List γ) :
    (l.flatMap g).findSome? f = l.findSome? fun x => (g x).findSome? f := by
  induction l with
  | nil => rfl
  | cons x l ih =>
      rw [List.flatMap_cons, List.findSome?_append, ih, List.findSome?_cons]
      cases (g x).findSome? f <;> rfl

theorem findSome?_takeMany (f : Spot → Option α) (cs : CharSet) (greedy : Bool) (s : Spot) :
    (Spot.takeMany cs greedy s.groups s.before s.after).findSome? f =
      let more := (s.takeOne cs).findSome? fun s' =>
        (Spot.takeMany cs greedy s'.groups s'.before s'.after).findSome? f
      if greedy then more.or (f s) else (f s).or more := by
  obtain ⟨before, after, gs⟩ := s
  cases after with
  | nil => cases greedy <;> simp [Spot.takeMany, Spot.takeOne]
  | cons c after =>
      have hmore : (if cs.has c then Spot.takeMany cs greedy gs (c :: before) after
            else []).findSome? f =
          (Spot.takeOne cs ⟨before, c :: after, gs⟩).findSome? fun s' =>
            (Spot.takeMany cs greedy s'.groups s'.before s'.after).findSome? f := by
        cases hc : cs.has c <;> simp [Spot.takeOne, hc]
      simp only [← hmore, Spot.takeMany]
      cases greedy with
      | false =>
          simp only [Bool.false_eq_true, if_false]
          rw [← List.singleton_append, List.findSome?_append, List.findSome?_singleton]
      | true => simp only [if_true, List.findSome?_append, List.findSome?_singleton]

/-- One round of a repetition of single characters, given what a round after the choice does. -/
theorem meets_round {label : Nat} {cs : CharSet} {greedy : Bool} {f : Spot → Option α} {ok : Goal}
    {round k : State → Outcome α} (hf : Decides f ok) (hk : Answers D (label + 1) f k)
    (hD : ∀ before t, D label before t ↔ ¬(star greedy (set cs)).Live ok before t) {s : State}
    (hs : Ready D label s)
    (hround : ∀ s', s'.spot = s.spot → Ready D (label + 1) s' →
      Meets D ((s'.spot.takeOne cs).findSome? fun s =>
        (Spot.takeMany cs greedy s.groups s.before s.after).findSome? f) s' (round s')) :
    Meets D ((Spot.takeMany cs greedy s.groups s.before s.spot.after).findSome? f) s
      (s.chooseRound label greedy round k) := by
  have hdec := hf.ways (star greedy (set cs))
  have hskip : D label s.before s.trail.text →
      (Spot.takeMany cs greedy s.groups s.before s.spot.after).findSome? f = none :=
    fun h => hdec.eq_none (s := s.spot) ((hD _ _).mp h)
  have hdead : (Spot.takeMany cs greedy s.groups s.before s.spot.after).findSome? f = none →
      D label s.before s.trail.text :=
    fun h => (hD _ _).mpr (hdec.not_of_eq_none (s := s.spot) h)
  have hall : (Spot.takeMany cs greedy s.groups s.before s.spot.after).findSome? f = _ :=
    findSome?_takeMany f cs greedy s.spot
  rw [hall] at hskip hdead ⊢
  have hround' : ∀ s', s'.spot = s.spot → Ready D (label + 1) s' →
      Meets D ((s.spot.takeOne cs).findSome? fun s =>
        (Spot.takeMany cs greedy s.groups s.before s.after).findSome? f) s' (round s') :=
    fun s' e h => e ▸ hround s' e h
  have hk' : ∀ s', s'.spot = s.spot → Ready D (label + 1) s' →
      Meets D (f s.spot) s' (k s') :=
    fun s' e h => e ▸ hk s' h
  rw [State.chooseRound]
  cases greedy with
  | false =>
      simp only [Bool.false_eq_true, if_false, Option.or_eq_none_iff] at hskip hdead ⊢
      exact meets_choose hs hskip (fun h1 h2 => hdead ⟨h1, h2⟩) hk' hround'
  | true =>
      simp only [if_true, Option.or_eq_none_iff] at hskip hdead ⊢
      exact meets_choose hs hskip (fun h1 h2 => hdead ⟨h1, h2⟩) hround' hk'

theorem meets_star {label : Nat} {cs : CharSet} {greedy : Bool} {f : Spot → Option α} {ok : Goal}
    {k : State → Outcome α} (hf : Decides f ok) (hk : Answers D (label + 1) f k)
    (hD : ∀ before t, D label before t ↔ ¬(star greedy (set cs)).Live ok before t) {s : State}
    (hs : Ready D label s) :
    Meets D ((Spot.takeMany cs greedy s.groups s.before s.spot.after).findSome? f) s
      (runStar (run (set cs) (label + 1)) greedy label s.trail.rest s k) := by
  generalize hrounds : s.trail.rest = rounds
  have hlen : rounds.length = s.spot.after.length := by
    rw [← hrounds]
    simp [State.spot, Trail.text]
  clear hrounds
  -- The rounds that are left bound the recursion; each round leaves one character less.
  induction rounds generalizing s with
  | nil =>
      refine meets_round hf hk hD hs fun s' hspot hs' => ?_
      refine meets_take hs' fun s'' hmem => ?_
      rw [hspot, Spot.takeOne, List.eq_nil_of_length_eq_zero hlen.symm] at hmem
      simp at hmem
  | cons r rounds ih =>
      refine meets_round hf hk hD hs fun s' hspot hs' => ?_
      refine meets_take hs' fun s'' hmem hs'' => ?_
      refine ih (hs''.mono (Nat.zero_le _)) ?_
      have := Spot.length_after_of_mem_takeOne (hspot ▸ hmem)
      simp only [List.length_cons] at hlen
      omega

/-! ### Whole patterns -/

/-- The marks for the choices of a pattern, numbered from `label` on, mean what the pattern says. -/
def Agrees (D : Nat → Goal) (p : Pattern) (ok : Goal) (label : Nat) : Prop :=
  ∀ l < p.choices, ∀ before t, D (label + l) before t ↔ Dead p ok l before t

namespace Agrees

variable {D : Nat → Goal} {p q : Pattern} {ok : Goal} {label : Nat}

theorem seq_left (h : Agrees D (seq p q) ok label) : Agrees D p (q.Live ok) label := by
  intro l hl before t
  rw [h l (Nat.lt_of_lt_of_le hl (Nat.le_add_right _ _)), Dead, if_pos hl]

theorem seq_right (h : Agrees D (seq p q) ok label) : Agrees D q ok (label + p.choices) := by
  intro l hl before t
  rw [Nat.add_assoc, h (p.choices + l) (Nat.add_lt_add_left hl _), Dead, if_neg (by omega),
    Nat.add_sub_cancel_left]

/-- The first mark is the one for the choice itself. -/
theorem alt_choice (h : Agrees D (alt p q) ok label) (before t : Text) :
    D label before t ↔ ¬(alt p q).Live ok before t := by
  have h0 := h 0 (by simp only [choices]; omega) before t
  rwa [Dead, if_pos rfl] at h0

theorem alt_left (h : Agrees D (alt p q) ok label) : Agrees D p ok (label + 1) := by
  intro l hl before t
  rw [Nat.add_assoc, h (1 + l) (by simp only [choices]; omega), Dead, if_neg (by omega),
    Nat.add_sub_cancel_left, if_pos hl]

theorem alt_right (h : Agrees D (alt p q) ok label) : Agrees D q ok (label + 1 + p.choices) := by
  intro l hl before t
  rw [show label + 1 + p.choices + l = label + (1 + p.choices + l) by omega,
    h _ (by simp only [choices]; omega), Dead, if_neg (by omega), if_neg (by omega),
    show 1 + p.choices + l - 1 - p.choices = l by omega]

end Agrees

theorem run_meets {p : Pattern} (hp : p.Flat) {label : Nat} {f : Spot → Option α} {ok : Goal}
    {k : State → Outcome α} (hf : Decides f ok) (hk : Answers D (label + p.choices) f k)
    (hD : Agrees D p ok label) {s : State} (hs : Ready D label s) :
    Meets D ((p.ways s.spot).findSome? f) s (run p label s k) := by
  induction p generalizing label f ok k s with
  | empty =>
      rw [ways, List.findSome?_singleton]
      exact hk s hs
  | set cs => exact meets_take hs fun s' _ hs' => hk s' (hs'.mono (Nat.zero_le _))
  | assert a =>
      have hholds : s.holds a = a.holds s.spot.before.head? s.spot.after.head? := by
        simp [State.holds, State.spot, Trail.text]
      rw [run, ways, hholds]
      split
      · rw [List.findSome?_singleton]
        exact hk s hs
      · exact hs.meets_stop
  | seq p q ihp ihq =>
      rw [ways, findSome?_flatMap]
      refine ihp hp.1 (hf.ways q) (fun s' hs' => ?_) hD.seq_left hs
      exact ihq hp.2 hf (by simpa [choices, Nat.add_assoc] using hk) hD.seq_right hs'
  | alt p q ihp ihq =>
      have hdec := hf.ways (alt p q)
      simp only [ways, List.findSome?_append] at hdec ⊢
      have hor : ∀ s : Spot, (p.ways s).findSome? f = none → (q.ways s).findSome? f = none →
          ((p.ways s).findSome? f).or ((q.ways s).findSome? f) = none :=
        fun s h1 h2 => by rw [h1, h2]; rfl
      refine meets_choose hs (fun h => ?_) (fun h1 h2 => ?_) (fun s' e hs' => ?_)
        fun s' e hs' => ?_
      · exact Option.or_eq_none_iff.mp (hdec.eq_none (s := s.spot) ((hD.alt_choice _ _).mp h))
      · exact (hD.alt_choice _ _).mpr (hdec.not_of_eq_none (s := s.spot) (hor _ h1 h2))
      · rw [← e]
        refine ihp hp.1 hf (fun s hs => hk s (hs.mono ?_)) hD.alt_left hs'
        simp only [choices]
        omega
      · rw [← e]
        refine ihq hp.2 hf (fun s hs => hk s (hs.mono ?_)) hD.alt_right (hs'.mono ?_)
        · simp only [choices]
          omega
        · omega
  | star greedy p _ =>
      cases p with
      | set cs => exact meets_star hf hk (hD 0 (by simp [choices])) hs
      | _ => exact hp.elim
  | plus greedy p _ =>
      cases p with
      | set cs =>
          rw [ways, findSome?_flatMap, run]
          refine meets_take (f := fun s : Spot =>
            (Spot.takeMany cs greedy s.groups s.before s.after).findSome? f) hs fun s' _ hs' => ?_
          exact meets_star hf hk (hD 0 (by simp [choices])) (hs'.mono (Nat.zero_le _))
      | _ => exact hp.elim
  | group i p ih =>
      rw [ways, List.findSome?_map]
      exact ih hp (fun s' => hf (s'.close i s.spot)) (fun s' hs' => hk (s'.close i s) hs') hD hs
  | copies => exact hp.elim
  | upTo => exact hp.elim

end

end Graft.Pattern
