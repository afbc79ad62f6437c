import Graft.Pattern.Basic
import Graft.Text.CharRange

/-! # Sets of characters as bytes

An automaton that reads UTF-8 takes a character byte by byte, so a set of characters becomes a graph
whose edges are ranges of bytes.  `CharSet.memory` says how much memory that graph needs.  Read
forwards, equal ends are shared; read backwards, only what two items have in common at the side
where the character starts. -/

namespace Graft

open CharTable (Ranges)

/-! ### Ranges of a set -/

/-- The characters of a class. -/
def CharClass.ranges : CharClass → Ranges
  | digit => CharTable.decimalDigits.without CharTable.lateWordChars
  | space => CharTable.whiteSpace
  | word =>
    Ranges.without (CharTable.alphabetic ++ CharTable.decimalDigits ++ CharTable.wordMarks)
      CharTable.lateWordChars

/-- The characters of an entry. -/
def SetItem.ranges : SetItem → Ranges
  | .range low high => [(low.toNat, high.toNat)]
  | .named cls negated => if negated then cls.ranges.complement else cls.ranges

/-- The characters of a set. -/
def CharSet.ranges (s : CharSet) : Ranges :=
  let rs : Ranges := s.items.flatMap SetItem.ranges
  if s.negated then rs.complement else rs.normal

namespace ByteRange

/-! ### Items -/

/-- The ranges of code points that take the same number of bytes, each with the sizes of the blocks
that agree in all bytes but the last, the last two, and so on. -/
def lengths : List ((Nat × Nat) × List Nat) :=
  [((0, 0x7F), []), ((0x80, 0x7FF), [64]), ((0x800, 0xD7FF), [64, 4096]),
    ((0xE000, 0xFFFF), [64, 4096]), ((0x10000, 0x10FFFF), [64, 4096, 262144])]

/-- Cuts a range into pieces that are either inside one block of each of the sizes or made of whole
blocks, so that each byte ranges on its own. -/
def pieces : List Nat → Nat → Nat → Ranges
  | [], low, high => [(low, high)]
  | size :: sizes, low, high =>
    if low / size = high / size then [(low, high)]
    else
      let start := (low + size - 1) / size * size
      let stop := (high + 1) / size * size
      (if low < start then [(low, start - 1)] else []) ++
        (if start < stop then pieces sizes start (stop - 1) else []) ++
        (if stop ≤ high then [(stop, high)] else [])

/-- The bytes of a character, by its number. -/
def bytes (n : Nat) : List Nat := (String.utf8EncodeChar (Char.ofNat n)).map UInt8.toNat

/-- What the bytes of the characters of some ranges can be.  Each item has a range for every byte;
the items ascend. -/
def items (rs : Ranges) : List Ranges :=
  rs.flatMap fun r => lengths.flatMap fun l =>
    let low := max r.1 l.1.1
    let high := min r.2 l.1.2
    if high < low then [] else (pieces l.2 low high).map fun p => (bytes p.1).zip (bytes p.2)

/-! ### Graphs -/

/-- The number of edges if items share what they have in common at their start with the item
before. -/
def edgeCount : Ranges → List Ranges → Nat
  | _, [] => 0
  | last, item :: items =>
    let shared := (last.zip item).takeWhile fun p => p.1 == p.2
    item.length - shared.length + edgeCount item items

/-- Items by their first range, each without it. -/
def groups (items : List Ranges) : List (List Ranges) :=
  (items.splitBy fun a b => a.head? == b.head?).map fun g => g.map (·.drop 1)

/-- What can follow at the start and behind each range that is not the last of its items; the first
argument bounds the length of an item. -/
def continuations : Nat → List Ranges → List (List Ranges)
  | 0, _ => []
  | n + 1, items => items :: ((groups items).filter (· ≠ [[]])).flatMap (continuations n)

/-- The memory of a state. -/
def stateMemory : Nat := 32

/-- The memory of a range of bytes that leads from one state to another. -/
def rangeMemory : Nat := 8

/-- The memory of one way that a choice can go. -/
def choiceMemory : Nat := 4

/-- The memory of a graph that is read forwards: a state for each different continuation and for
the end. -/
def forwardMemory (items : List Ranges) : Nat :=
  let states := (continuations 4 items).eraseDups
  stateMemory * (states.length + 1) + rangeMemory * states.foldr (fun s n => (groups s).length + n) 0

/-- The memory of a graph that is read backwards: a state for each edge, for the choice of an item
and for the end. -/
def backwardMemory (items : List Ranges) : Nat :=
  stateMemory * (edgeCount [] items + 2) + choiceMemory * items.length

end ByteRange

/-! ### Memory -/

/-- The memory that an automaton needs, read forwards and read backwards. -/
structure Footprint where
  forward : Nat
  backward : Nat
  deriving DecidableEq, Repr

namespace Footprint

instance : Add Footprint := ⟨fun a b => ⟨a.forward + b.forward, a.backward + b.backward⟩⟩

/-- The same in both directions. -/
def both (n : Nat) : Footprint := ⟨n, n⟩

/-- A number of copies. -/
def times (n : Nat) (m : Footprint) : Footprint := ⟨n * m.forward, n * m.backward⟩

end Footprint

open ByteRange in
/-- The memory that an automaton needs to take a character of a set.  A single character has a state
for each byte, and ranges of ASCII all leave the same state. -/
def CharSet.memory (s : CharSet) : Footprint :=
  let rs := s.ranges
  match rs.map fun r => (r.1, r.2 - r.1) with
  | [] => .both stateMemory
  | [(c, 0)] => .both (stateMemory * (bytes c).length)
  | _ =>
    if rs.all fun r => r.2 < 0x80 then .both (2 * stateMemory + rangeMemory * rs.length)
    else ⟨forwardMemory (ByteRange.items rs), backwardMemory (ByteRange.items rs)⟩

end Graft
