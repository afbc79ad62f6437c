import Graft.Pattern.ByteRange

/-! # The size of a pattern

A short text can describe a huge automaton: each round that is counted is a copy, and a class such
as the word characters has many hundred ranges.  `Pattern.fits` tells whether the automaton of a
pattern stays within `memoryLimit`, read forwards and read backwards. -/

namespace Graft.Pattern

open ByteRange

/-- The memory of the choice before or after a round. -/
def roundMemory : Footprint := .both (stateMemory + 2 * choiceMemory)

/-- The memory of the automaton of a pattern.  Only an automaton that is read forwards records
groups. -/
def memory : Pattern → Footprint
  | empty => .both 0
  | set s => s.memory
  | assert _ => .both stateMemory
  | seq p q => p.memory + q.memory
  | alt p q =>
    let choice :=
      match q with
      | alt .. => choiceMemory
      | _ => 2 * choiceMemory + 2 * stateMemory
    p.memory + q.memory + .both choice
  | copies n p => p.memory.times n
  | upTo n _ p => (p.memory + roundMemory).times n + .both stateMemory
  | star _ p | plus _ p => p.memory + roundMemory
  | group _ p => p.memory + ⟨2 * stateMemory, 0⟩

/-- The memory that an automaton may take: ten mebibytes. -/
def memoryLimit : Nat := 10 * Nat.pow 2 20

/-- What every automaton needs for a match to begin anywhere and to end. -/
def frameMemory : Nat := 208

/-- Whether the automaton of a pattern stays within the limit. -/
def fits (p : Pattern) : Bool :=
  let m := p.memory
  max m.forward m.backward + frameMemory ≤ memoryLimit

end Graft.Pattern
