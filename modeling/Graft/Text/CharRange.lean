import Graft.Text.CharTable

/-! # Sets of code points

Sets of code points as lists of closed ranges: `normal` puts the ranges in order, `complement` gives
all other code points. -/

namespace Graft.CharTable.Ranges

/-- Adds a range that does not start below the ones before it, and joins it to the last one if the
two touch.  The ranges are kept last first. -/
def extend : Ranges → Nat × Nat → Ranges
  | [], r => [r]
  | (low, high) :: rs, r =>
    if r.1 ≤ high + 1 then (low, max high r.2) :: rs else r :: (low, high) :: rs

/-- The same code points as ranges that do not touch, in ascending order. -/
def normal (rs : Ranges) : Ranges :=
  ((rs.mergeSort fun a b => a.1 ≤ b.1).foldl extend []).reverse

/-- The greatest code point. -/
def lastCode : Nat := 0x10FFFF

/-- The code points from `start` on that are in none of the ranges, which ascend. -/
def gapsFrom (start : Nat) : Ranges → Ranges
  | [] => if start ≤ lastCode then [(start, lastCode)] else []
  | (low, high) :: rs =>
    if start < low then (start, low - 1) :: gapsFrom (high + 1) rs else gapsFrom (high + 1) rs

/-- All other code points. -/
def complement (rs : Ranges) : Ranges := gapsFrom 0 rs.normal

/-- The code points of the first ranges that are not in the second. -/
def without (rs others : Ranges) : Ranges := complement (rs.complement ++ others)

end Graft.CharTable.Ranges
