import Graft.Diff.Shortest

/-! # Edits along unique tokens

Tokens that occur once on each side hold the two sequences together: they are paired up by shortest
edits among themselves, and what lies between two pairs is compared on its own.  So a method or a
block stays in one piece where shortest edits would tear it apart. -/

namespace Graft.Diff

variable {α : Type} [DecidableEq α]

/-- The tokens that occur exactly once, with their indexes. -/
def uniqueTokens (xs : List α) : List (α × Nat) := xs.zipIdx.filter fun p => xs.count p.1 = 1

/-- The pairs of indexes that some edits keep equal. -/
def pairsOf (es : List Edit) : List (Nat × Nat) :=
  (es.filter (·.tag = .equal)).flatMap fun e =>
    (List.range e.oldLen).map fun i => (e.old + i, e.new + i)

/-- The pairs of indexes of unique tokens that belong together. -/
def uniquePairs (a b : List α) : List (Nat × Nat) :=
  let ua := uniqueTokens a
  let ub := uniqueTokens b
  (pairsOf (shortest (ua.map (·.1)) (ub.map (·.1)) 0 0)).filterMap fun (i, j) => do
    let x ← ua[i]?
    let y ← ub[j]?
    return (x.2, y.2)

/-- The edits before each of some pairs and after the last, from places `p` and `q` on. -/
def along (a b : List α) : List (Nat × Nat) → Nat → Nat → List Edit
  | [], p, q => shortest (a.drop p) (b.drop q) p q
  | (i, j) :: pairs, p, q =>
    let xs := (a.take i).drop p
    let ys := (b.take j).drop q
    let s := commonStart xs ys
    equalEdit p q s ++ shortest (xs.drop s) (ys.drop s) (p + s) (q + s) ++ along a b pairs i j

/-- Edits from `a` to `b` that keep the pairs of unique tokens. -/
def patience (a b : List α) : List Edit := along a b (uniquePairs a b) 0 0

end Graft.Diff
