import Graft.Proofs.Pattern.Find
import Graft.Proofs.Text.Change

/-! # Where matches lie

Whatever a pattern repeats, an attempt hands over only states that it reaches by taking characters,
and one that fails leaves the text of its trail as it was (`run_honest`).  So what a search finds is
a piece of the text (`exists_split_of_find?`), for every pattern and not only for the flat ones. -/

namespace Graft.Pattern

variable {α : Type}

namespace State

/-- The state `s'` stands behind some of the characters that come after `s`. -/
def Reaches (s s' : State) : Prop :=
  ∃ u : Text, s'.before = u.reverse ++ s.before ∧ s.trail.text = u ++ s'.trail.text

theorem reaches_of_text {s s' : State} (h1 : s'.before = s.before)
    (h2 : s'.trail.text = s.trail.text) : s.Reaches s' := by
  refine ⟨[], ?_, ?_⟩
  · exact h1
  · exact h2.symm

theorem Reaches.trans {s s' s'' : State} (h : s.Reaches s') (h' : s'.Reaches s'') :
    s.Reaches s'' := by
  obtain ⟨u, hbefore, htext⟩ := h
  obtain ⟨v, hbefore', htext'⟩ := h'
  refine ⟨u ++ v, ?_, ?_⟩
  · rw [hbefore', hbefore, List.reverse_append, List.append_assoc]
  · rw [htext, htext', List.append_assoc]

end State

/-! ### Attempts -/

/-- A continuation that leaves the text of the trail as it is when it fails. -/
def Keeps (k : State → Outcome α) : Prop := ∀ s t, k s = .failed t → t.text = s.trail.text

/-- An outcome that the continuation has at a state reached from `s`, or a failure that leaves the
text behind `s` as it is. -/
def Honors (k : State → Outcome α) (s : State) : Outcome α → Prop
  | .found r => ∃ s', s.Reaches s' ∧ k s' = .found r
  | .failed t => t.text = s.trail.text

/-- Attempts that hand over only states that they reach. -/
def Honest (att : Attempt α) : Prop := ∀ s k, Keeps k → Honors k s (att s k)

theorem Honest.keeps {att : Attempt α} {k : State → Outcome α} (h : Honest att) (hk : Keeps k) :
    Keeps fun s => att s k := by
  intro s t (ht : att s k = .failed t)
  have honors := h s k hk
  rw [ht] at honors
  exact honors

/-- An outcome for a state on the way counts for the state before it. -/
theorem Honors.of_reaches {k : State → Outcome α} {s s' : State} {o : Outcome α}
    (h : Honors k s' o) (hs : s.Reaches s') (htext : s'.trail.text = s.trail.text) :
    Honors k s o := by
  cases o with
  | found r =>
      obtain ⟨s'', hreach, hr⟩ := h
      exact ⟨s'', hs.trans hreach, hr⟩
  | failed t => exact Eq.trans h htext

theorem honest_stop : Honest fun (s : State) (k : State → Outcome α) => k s := by
  intro s k hk
  show Honors k s (k s)
  cases ho : k s with
  | found r => exact ⟨s, State.reaches_of_text rfl rfl, ho⟩
  | failed t => exact hk s t ho

theorem Honest.seq {first second : Attempt α} (h1 : Honest first) (h2 : Honest second) :
    Honest fun s k => first s fun s' => second s' k := by
  intro s k hk
  show Honors k s (first s fun s' => second s' k)
  have honors := h1 s (fun s' => second s' k) (h2.keeps hk)
  cases ho : first s fun s' => second s' k with
  | failed t =>
      rw [ho] at honors
      exact honors
  | found r =>
      rw [ho] at honors
      obtain ⟨s', hreach, (hr : second s' k = .found r)⟩ := honors
      have hrest := h2 s' k hk
      rw [hr] at hrest
      obtain ⟨s'', hreach', hr'⟩ := hrest
      exact ⟨s'', hreach.trans hreach', hr'⟩

theorem honest_take (cs : CharSet) :
    Honest fun (s : State) (k : State → Outcome α) => s.take cs k := by
  rintro ⟨before, ⟨here, rest⟩, gs⟩ k hk
  cases rest with
  | nil => rfl
  | cons x rest =>
      obtain ⟨c, tried⟩ := x
      simp only [State.take]
      cases cs.has c with
      | false => rfl
      | true =>
          simp only [if_true]
          cases ho : k ⟨c :: before, ⟨tried, rest⟩, gs⟩ with
          | found r => exact ⟨_, ⟨[c], rfl, rfl⟩, ho⟩
          | failed t =>
              have htext := hk _ t ho
              simp only [Trail.text] at htext
              simp only [Honors, Trail.text, List.map_cons, htext]

theorem Honest.choose {first second : Attempt α} (h1 : Honest first) (h2 : Honest second)
    (label : Nat) : Honest fun s k => s.choose label (first · k) (second · k) := by
  intro s k hk
  simp only [State.choose]
  cases s.hasTried label with
  | true => rfl
  | false =>
      have honors : Honors k s (first (s.mark label) k) :=
        (h1 (s.mark label) k hk).of_reaches (State.reaches_of_text rfl rfl) rfl
      simp only [Bool.false_eq_true, if_false]
      cases ho : first (s.mark label) k with
      | found r =>
          rw [ho] at honors
          exact honors
      | failed t =>
          rw [ho] at honors
          exact (h2 { s with trail := t } k hk).of_reaches (State.reaches_of_text rfl honors) honors

theorem Honest.chooseRound {round stop : Attempt α} (h1 : Honest round) (h2 : Honest stop)
    (label : Nat) (greedy : Bool) :
    Honest fun s k => s.chooseRound label greedy (round · k) (stop · k) := by
  intro s k hk
  simp only [State.chooseRound]
  cases greedy with
  | true => exact h1.choose h2 label s k hk
  | false => exact h2.choose h1 label s k hk

/-- A round that nothing may follow. -/
theorem Honest.last {round : Attempt α} (h : Honest round) :
    Honest fun (s : State) (_ : State → Outcome α) => round s fun s' => .failed s'.trail := by
  intro s k _
  show Honors k s (round s fun s' => .failed s'.trail)
  have honors := h s (fun s' => .failed s'.trail) (by
    intro s' t ht
    obtain rfl := Outcome.failed.inj ht
    rfl)
  cases ho : round s fun s' => .failed s'.trail with
  | failed t =>
      rw [ho] at honors
      exact honors
  | found r =>
      rw [ho] at honors
      obtain ⟨s', -, hr⟩ := honors
      cases hr

/-! ### Patterns -/

theorem honest_copies {round : Nat → Attempt α} (h : ∀ label, Honest (round label)) (width : Nat)
    (n label : Nat) : Honest (runCopies round width n label) := by
  induction n generalizing label with
  | zero => exact honest_stop
  | succ n ih => exact (h label).seq (ih _)

theorem honest_upTo {round : Nat → Attempt α} (h : ∀ label, Honest (round label)) (width : Nat)
    (greedy : Bool) (n label : Nat) : Honest (runUpTo round width greedy n label) := by
  induction n generalizing label with
  | zero => exact honest_stop
  | succ n ih => exact ((h _).seq (ih _)).chooseRound honest_stop label greedy

theorem honest_star {round : Attempt α} (h : Honest round) (greedy : Bool) (label : Nat)
    (rounds : List (Char × Nat)) : Honest (runStar round greedy label rounds) := by
  induction rounds with
  | nil => exact h.last.chooseRound honest_stop label greedy
  | cons _ rounds ih => exact (h.seq ih).chooseRound honest_stop label greedy

theorem run_honest (p : Pattern) (label : Nat) : Honest (run p label (α := α)) := by
  induction p generalizing label with
  | empty => exact honest_stop
  | set cs => exact honest_take cs
  | assert a =>
      intro s k hk
      simp only [run]
      cases s.holds a with
      | true => exact honest_stop s k hk
      | false => rfl
  | seq p q ihp ihq => exact (ihp label).seq (ihq _)
  | alt p q ihp ihq => exact (ihp _).choose (ihq _) label
  | copies n p ih => exact honest_copies ih _ n label
  | upTo n greedy p ih => exact honest_upTo ih _ greedy n label
  | star greedy p ih =>
      intro s k hk
      exact honest_star (ih _) greedy label s.trail.rest s k hk
  | plus greedy p ih =>
      -- The number of further rounds depends on where the first one ends.
      have hrest : Honest fun (s : State) (k : State → Outcome α) =>
          runStar (run p (label + 1)) greedy label s.trail.rest s k := by
        intro s k hk
        exact honest_star (ih _) greedy label s.trail.rest s k hk
      exact (ih _).seq hrest
  | group i p ih =>
      intro s k hk
      have hclose : Keeps fun s' => k (s'.close i s) := by
        intro s' t ht
        exact hk (s'.close i s) t ht
      have honors := ih label s (fun s' => k (s'.close i s)) hclose
      simp only [run]
      cases ho : run p label s fun s' => k (s'.close i s) with
      | failed t =>
          rw [ho] at honors
          exact honors
      | found r =>
          rw [ho] at honors
          obtain ⟨s', hreach, hr⟩ := honors
          exact ⟨s'.close i s, hreach, hr⟩

/-! ### Searches -/

theorem matchAt_honors (p : Pattern) (before : Text) (trail : Trail) :
    Honors (fun s => .found (Match.ofState before s)) ⟨before, trail, []⟩
      (p.matchAt before trail) := by
  refine run_honest p 0 _ _ ?_
  intro s t ht
  cases ht

theorem exists_split_of_matchAt {p : Pattern} {before : Text} {trail : Trail} {m : Match}
    (h : p.matchAt before trail = .found m) :
    ∃ u b, trail.text = u ++ b ∧ m.start = before.length ∧ m.stop = m.start + u.length := by
  have honors := matchAt_honors p before trail
  rw [h] at honors
  obtain ⟨s, ⟨u, hbefore, htext⟩, hm⟩ := honors
  obtain rfl := Outcome.found.inj hm
  refine ⟨u, s.trail.text, htext, rfl, ?_⟩
  simp only [Match.ofState, hbefore, List.length_append, List.length_reverse]
  omega

theorem text_of_matchAt {p : Pattern} {before : Text} {trail trail' : Trail}
    (h : p.matchAt before trail = .failed trail') : trail'.text = trail.text := by
  have honors := matchAt_honors p before trail
  rw [h] at honors
  exact honors

theorem Trail.text_next {trail : Trail} {c : Char} {t : Text} (h : trail.text = c :: t) :
    trail.next.text = t := by
  obtain ⟨here, rest⟩ := trail
  cases rest with
  | nil => cases h
  | cons x rest => exact (List.cons.inj h).2

/-- A match starts at or behind the place from which the search goes. -/
theorem exists_split_of_search {p : Pattern} {before t : Text} {trail : Trail} {m : Match}
    (ht : trail.text = t) (h : p.search before trail t = some m) :
    ∃ a u b, t = a ++ u ++ b ∧ m.start = before.length + a.length ∧ m.stop = m.start + u.length := by
  induction t generalizing before trail with
  | nil =>
      simp only [search] at h
      cases ho : p.matchAt before trail with
      | failed trail' =>
          rw [ho] at h
          cases h
      | found m' =>
          rw [ho] at h
          obtain rfl := Option.some.inj h
          obtain ⟨u, b, htext, hstart, hstop⟩ := exists_split_of_matchAt ho
          exact ⟨[], u, b, ht.symm.trans htext, hstart, hstop⟩
  | cons c t ih =>
      simp only [search] at h
      cases ho : p.matchAt before trail with
      | found m' =>
          rw [ho] at h
          obtain rfl := Option.some.inj h
          obtain ⟨u, b, htext, hstart, hstop⟩ := exists_split_of_matchAt ho
          exact ⟨[], u, b, ht.symm.trans htext, hstart, hstop⟩
      | failed trail' =>
          rw [ho] at h
          have htext : trail'.text = c :: t := (text_of_matchAt ho).trans ht
          obtain ⟨a, u, b, rfl, hstart, hstop⟩ := ih (Trail.text_next htext) h
          refine ⟨c :: a, u, b, rfl, ?_, hstop⟩
          rw [hstart, List.length_cons, List.length_cons]
          omega

/-- What a pattern finds is a piece of the text. -/
theorem exists_split_of_find? {p : Pattern} {t : Text} {m : Match} (h : p.find? t = some m) :
    ∃ a u b, t = a ++ u ++ b ∧ m.start = a.length ∧ m.stop = (a ++ u).length ∧ m.text t = u := by
  obtain ⟨a, u, b, rfl, hstart, hstop⟩ := exists_split_of_search (text_ofText t) h
  have hstart : m.start = a.length := by
    rw [hstart]
    exact Nat.zero_add _
  have hstop : m.stop = (a ++ u).length := by
    rw [hstop, hstart, List.length_append]
  refine ⟨a, u, b, rfl, hstart, hstop, ?_⟩
  rw [Match.text, hstart, hstop, List.length_append]
  exact Text.slice_append a u b

end Graft.Pattern
