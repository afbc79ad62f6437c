import Graft.Diff.Basic

/-! # Shortest edits

A list of edits with as few deletions and insertions as possible is found by dividing: common ends
are cut off, and the rest is split at a place on a shortest path that searches from both sides meet
at.  A search goes in rounds.  After round `d` it knows, for each diagonal `d, d - 2, …, -d`, how
far along the old sequence `d` changes reach; diagonal `k` holds the places where `k` more old than
new tokens have been used. -/

namespace Graft.Diff

variable {α : Type} [DecidableEq α]

/-- Where the next round starts on each diagonal, from how far the last round came on the two
beside it.  An old token is used up unless coming from the other side leads further. -/
def starts (reached : List Nat) : List Nat :=
  match reached with
  | [] => [0]
  | _ => List.zipWith start (none :: reached.map some) (reached.map some ++ [none])
where
  /-- The start on a diagonal between the one above and the one below it. -/
  start (above below : Option Nat) : Nat :=
    match above, below with
    | some x, none => x
    | some x, some y => if y < x then x else y + 1
    | none, some y => y + 1
    | none, none => 0

/-- The places of a round, from diagonal `d` down: diagonal, start, and how far equal tokens lead
from there. -/
def places (a b : List α) (d : Nat) (reached : List Nat) : List (Int × Nat × Nat) :=
  (starts reached).mapIdx fun i x =>
    let k : Int := d - 2 * (i : Int)
    (k, x, x + commonStart (a.drop x) (b.drop (x - k).toNat))

/-- What the opposite search knows about diagonal `k` after round `d`. -/
def reach? (d : Nat) (reached : List Nat) (k : Int) : Option Nat :=
  if k.natAbs ≤ d then reached[((d - k) / 2).toNat]? else none

/-- Searches for a meeting of the two directions from round `d` on, given how far they came before;
the first argument bounds the rounds. -/
def meetingFrom (a b : List α) : Nat → Nat → List Nat → List Nat → Option (Nat × Nat)
  | 0, _, _, _ => none
  | fuel + 1, d, forward, backward =>
    let n := a.length
    let m := b.length
    let delta : Int := (n : Int) - m
    let odd := delta % 2 ≠ 0
    let ahead := places a b d forward
    let met := ahead.findSome? fun (k, start, x) =>
      if odd && (reach? (d - 1) backward (delta - k)).any (fun y => n ≤ x + y) then
        some (start, (start - k).toNat)
      else none
    match met with
    | some p => some p
    | none =>
      let back := places a.reverse b.reverse d backward
      let forward := ahead.map (·.2.2)
      let met := back.findSome? fun (k, _, x) =>
        if !odd && (reach? d forward (delta - k)).any (fun y => n ≤ x + y) then
          some (n - x, m - (x - k).toNat)
        else none
      match met with
      | some p => some p
      | none => meetingFrom a b fuel (d + 1) forward (back.map (·.2.2))

/-- A place on a shortest path between two sequences. -/
def meeting? (a b : List α) : Option (Nat × Nat) :=
  meetingFrom a b ((a.length + b.length + 1) / 2 + 1) 0 [] []

/-- An edit of a stretch of equal tokens, if there is one. -/
def equalEdit (old new len : Nat) : List Edit := if len = 0 then [] else [.equal old new len]

/-- Shortest edits from `a` to `b`, which start at `old` and `new`; the first argument bounds the
divisions. -/
def shortestFrom : Nat → List α → List α → Nat → Nat → List Edit
  | 0, a, b, old, new => [.delete old a.length new, .insert old new b.length]
  | fuel + 1, a, b, old, new =>
    let s := commonStart a b
    let a := a.drop s
    let b := b.drop s
    let e := commonEnd a b
    let a := a.take (a.length - e)
    let b := b.take (b.length - e)
    let i := old + s
    let j := new + s
    let between :=
      if a.isEmpty && b.isEmpty then []
      else if b.isEmpty then [.delete i a.length j]
      else if a.isEmpty then [.insert i j b.length]
      else
        match meeting? a b with
        | some (x, y) =>
          shortestFrom fuel (a.take x) (b.take y) i j ++
            shortestFrom fuel (a.drop x) (b.drop y) (i + x) (j + y)
        | none => [.delete i a.length j, .insert i j b.length]
    equalEdit old new s ++ between ++ equalEdit (i + a.length) (j + b.length) e

/-- Shortest edits from `a` to `b`, which start at `old` and `new`. -/
def shortest (a b : List α) (old new : Nat) : List Edit :=
  shortestFrom (a.length + b.length + 1) a b old new

end Graft.Diff
