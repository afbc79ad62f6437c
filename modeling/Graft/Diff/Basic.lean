import Graft.Text.Basic

/-! # Edits between two sequences

An edit says what happens to a stretch of an old and a stretch of a new sequence.  A list of edits
leads from one to the other.  Texts are compared token by token, where a token is a line with its
terminator. -/

namespace Graft.Diff

inductive Tag where
  | equal
  | delete
  | insert
  | replace
  deriving DecidableEq, Repr

/-- What happens to `oldLen` tokens from `old` on and to `newLen` tokens from `new` on. -/
structure Edit where
  tag : Tag
  old : Nat
  oldLen : Nat
  new : Nat
  newLen : Nat
  deriving DecidableEq, Repr

namespace Edit

def equal (old new len : Nat) : Edit := ⟨.equal, old, len, new, len⟩

def delete (old oldLen new : Nat) : Edit := ⟨.delete, old, oldLen, new, 0⟩

def insert (old new newLen : Nat) : Edit := ⟨.insert, old, 0, new, newLen⟩

def isEmpty (e : Edit) : Bool := e.oldLen = 0 && e.newLen = 0

/-- One more than the tokens the edit covers. -/
def weight (e : Edit) : Nat := e.oldLen + e.newLen + 1

end Edit

/-- The lines of a text with their terminators: a newline, a carriage return, or both together. -/
def tokens : Text → List Text
  | [] => []
  | c :: t =>
    if c = '\n' then ['\n'] :: tokens t
    else if c = '\r' && t.head? != some '\n' then ['\r'] :: tokens t
    else
      match tokens t with
      | [] => [[c]]
      | p :: ps => (c :: p) :: ps

variable {α : Type} [DecidableEq α]

/-- The length of the longest common start of two lists. -/
def commonStart : List α → List α → Nat
  | x :: xs, y :: ys => if x = y then commonStart xs ys + 1 else 0
  | _, _ => 0

/-- The length of the longest common end of two lists. -/
def commonEnd (xs ys : List α) : Nat := commonStart xs.reverse ys.reverse

end Graft.Diff
