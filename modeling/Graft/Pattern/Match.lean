import Graft.Pattern.Basic

/-! # Matching

`run` tries a pattern at a place and hands every way to match it, best first, to a continuation
until one is accepted.  The choices of a pattern are numbered, and each is tried at most once at
each place of the text: what it leads to does not depend on the way that led to it, so a second try
could only fail again, or go round in a circle without taking a character.  This bounds the work by
the choices times the places, and it is what ends an empty round of a repetition.

`find?` looks for the leftmost match, `findAll` for one match after the other. -/

namespace Graft

namespace Assertion

/-- Whether an assertion holds between two characters, as far as there are any. -/
def holds (a : Assertion) (last next : Option Char) : Bool :=
  match a with
  | textStart => last.isNone
  | textEnd => next.isNone
  | lineStart => last.all (· == '\n')
  | lineEnd => next.all (· == '\n')
  | boundary => last.any isWordChar != next.any isWordChar
  | noBoundary => last.any isWordChar == next.any isWordChar
  | wordStart => !last.any isWordChar && next.any isWordChar
  | wordEnd => last.any isWordChar && !next.any isWordChar

end Assertion

namespace Pattern

/-- The number of choices in a pattern. -/
def choices : Pattern → Nat
  | empty | set _ | assert _ => 0
  | seq p q => p.choices + q.choices
  | alt p q => 1 + p.choices + q.choices
  | copies n p => n * p.choices
  | upTo n _ p => n * (1 + p.choices)
  | star _ p | plus _ p => 1 + p.choices
  | group _ p => p.choices

/-! ### Places -/

/-- The text from a place on with the choices that have been tried: those at the place itself, and
beside each character those behind it.  The bits of a number are the set of choices. -/
structure Trail where
  here : Nat
  rest : List (Char × Nat)
  deriving DecidableEq, Repr

namespace Trail

/-- A text where nothing has been tried. -/
def ofText (t : Text) : Trail := ⟨0, t.map fun c => (c, 0)⟩

/-- The trail behind the next character. -/
def next (t : Trail) : Trail :=
  match t.rest with
  | [] => t
  | (_, tried) :: rest => ⟨tried, rest⟩

end Trail

/-- The state of an attempt: the characters before the place where it stands, nearest first, the
trail from there, and what groups have matched, last first: the characters before their two ends. -/
structure State where
  before : Text
  trail : Trail
  groups : List (Nat × Text × Text)
  deriving DecidableEq, Repr

namespace State

/-- Whether an assertion holds where an attempt stands. -/
def holds (s : State) (a : Assertion) : Bool :=
  a.holds s.before.head? (s.trail.rest.head?.map (·.1))

/-- Whether a choice has been tried where an attempt stands. -/
def hasTried (s : State) (label : Nat) : Bool := s.trail.here.testBit label

/-- Notes that a choice is tried. -/
def mark (s : State) (label : Nat) : State :=
  { s with trail := { s.trail with here := s.trail.here ||| 1 <<< label } }

/-- Records that group `index` matched what lies between `start` and `s`. -/
def close (s : State) (index : Nat) (start : State) : State :=
  { s with groups := (index, start.before, s.before) :: s.groups }

end State

/-! ### Attempts -/

/-- How an attempt ends: with what it looked for, or with its trail as it leaves it. -/
inductive Outcome (α : Type) where
  | found (result : α)
  | failed (trail : Trail)
  deriving DecidableEq, Repr

variable {α : Type}

/-- An attempt: a start, and what to do after each way to match, until that succeeds. -/
abbrev Attempt (α : Type) := State → (State → Outcome α) → Outcome α

namespace State

/-- Takes the next character, if it is in a set. -/
def take (s : State) (cs : CharSet) (k : State → Outcome α) : Outcome α :=
  match s.trail.rest with
  | [] => .failed s.trail
  | (c, tried) :: rest =>
    if cs.has c then
      match k ⟨c :: s.before, ⟨tried, rest⟩, s.groups⟩ with
      | .found r => .found r
      | .failed t => .failed ⟨s.trail.here, (c, t.here) :: t.rest⟩
    else .failed s.trail

/-- Tries one way and then another, unless the choice between them has been tried here. -/
def choose (s : State) (label : Nat) (first second : State → Outcome α) : Outcome α :=
  if s.hasTried label then .failed s.trail
  else
    match first (s.mark label) with
    | .found r => .found r
    | .failed t => second { s with trail := t }

/-- Tries a further round or the end, the round first if `greedy`. -/
def chooseRound (s : State) (label : Nat) (greedy : Bool) (round stop : State → Outcome α) :
    Outcome α :=
  if greedy then s.choose label round stop else s.choose label stop round

end State

/-- A number of rounds; each has `width` choices, numbered from `label` on. -/
def runCopies (round : Nat → Attempt α) (width : Nat) : Nat → Nat → Attempt α
  | 0, _, s, k => k s
  | n + 1, label, s, k =>
    round label s fun s' => runCopies round width n (label + width) s' k

/-- Up to a number of rounds; each has one choice before it. -/
def runUpTo (round : Nat → Attempt α) (width : Nat) (greedy : Bool) : Nat → Nat → Attempt α
  | 0, _, s, k => k s
  | n + 1, label, s, k =>
    s.chooseRound label greedy
      (fun s => round (label + 1) s fun s' =>
        runUpTo round width greedy n (label + 1 + width) s' k) k

/-- Any number of rounds.  The choice before each is the same, so each round takes a character, and
the characters that are left, given first, bound their number. -/
def runStar (round : Attempt α) (greedy : Bool) (label : Nat) : List (Char × Nat) → Attempt α
  | [], s, k => s.chooseRound label greedy (fun s => round s fun s' => .failed s'.trail) k
  | _ :: rest, s, k =>
    s.chooseRound label greedy (fun s => round s fun s' => runStar round greedy label rest s' k) k

/-- Hands the ways to match a pattern at a state, best first, to a continuation.  The choices of the
pattern are numbered from `label` on. -/
def run : Pattern → Nat → Attempt α
  | empty, _, s, k => k s
  | set cs, _, s, k => s.take cs k
  | assert a, _, s, k => if s.holds a then k s else .failed s.trail
  | seq p q, label, s, k => run p label s fun s' => run q (label + p.choices) s' k
  | alt p q, label, s, k =>
    s.choose label (fun s => run p (label + 1) s k) fun s => run q (label + 1 + p.choices) s k
  | copies n p, label, s, k => runCopies (run p) p.choices n label s k
  | upTo n greedy p, label, s, k => runUpTo (run p) p.choices greedy n label s k
  | star greedy p, label, s, k => runStar (run p (label + 1)) greedy label s.trail.rest s k
  | plus greedy p, label, s, k =>
    run p (label + 1) s fun s' => runStar (run p (label + 1)) greedy label s'.trail.rest s' k
  | group i p, label, s, k => run p label s fun s' => k (s'.close i s)

end Pattern

/-! ### Matches -/

/-- Where a pattern matched, and what its groups matched. -/
structure Match where
  start : Nat
  stop : Nat
  groups : List (Nat × Nat × Nat)
  deriving DecidableEq, Repr

namespace Match

/-- The match of an attempt that began behind `before`. -/
def ofState (before : Text) (s : Pattern.State) : Match :=
  ⟨before.length, s.before.length, s.groups.map fun g => (g.1, g.2.1.length, g.2.2.length)⟩

/-- The span of a group that took part in the match. -/
def group? (m : Match) (index : Nat) : Option (Nat × Nat) := m.groups.lookup index

/-- The text that was matched. -/
def text (m : Match) (t : Text) : Text := t.slice m.start m.stop

end Match

namespace Pattern

/-- The preferred match that starts at a place. -/
def matchAt (p : Pattern) (before : Text) (trail : Trail) : Outcome Match :=
  p.run 0 ⟨before, trail, []⟩ fun s => .found (.ofState before s)

/-- The leftmost match at or after a place, given by what is before it, its trail and the text
after it. -/
def search (p : Pattern) (before : Text) (trail : Trail) : Text → Option Match
  | [] =>
    match p.matchAt before trail with
    | .found m => some m
    | .failed _ => none
  | c :: after =>
    match p.matchAt before trail with
    | .found m => some m
    | .failed trail => search p (c :: before) trail.next after

/-- The leftmost match at or after position `pos` of a text. -/
def findFrom? (p : Pattern) (t : Text) (pos : Nat) : Option Match :=
  p.search (t.take pos).reverse (.ofText (t.drop pos)) (t.drop pos)

/-- The leftmost match in a text. -/
def find? (p : Pattern) (t : Text) : Option Match := p.findFrom? t 0

/-- Whether a pattern matches somewhere in a text. -/
def occursIn (p : Pattern) (t : Text) : Bool := (p.find? t).isSome

/-- The matches from position `pos` on, each search starting where the last match ended, and one
further after an empty match; the first argument bounds their number. -/
def findFrom (p : Pattern) (t : Text) : Nat → Nat → List Match
  | 0, _ => []
  | n + 1, pos =>
    match p.findFrom? t pos with
    | none => []
    | some m => m :: if t.length ≤ m.stop then [] else findFrom p t n (max m.stop (m.start + 1))

/-- The successive matches in a text. -/
def findAll (p : Pattern) (t : Text) : List Match := p.findFrom t (t.length + 1) 0

end Pattern

end Graft
