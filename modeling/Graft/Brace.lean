import Graft.Text.Basic

/-! # Braces

Braces are matched by counting, wherever they stand: one inside a string or a comment counts like
any other.  `closingOf?` and `openingOf?` look for the partner of a brace in the two directions,
`depthAt` counts how deep a position lies and `isBalanced` says whether every brace has a
partner. -/

namespace Graft.Brace

/-- What a character adds to the nesting depth. -/
def delta (c : Char) : Int := if c = '{' then 1 else if c = '}' then -1 else 0

/-- The depth after a whole text. -/
def depth : Text → Int
  | [] => 0
  | c :: t => delta c + depth t

/-- The depth at a position: opening less closing braces before it. -/
def depthAt (t : Text) (pos : Nat) : Int := depth (t.take pos)

/-- How far the brace `down` lies that ends a nest in which `n` inner ones are still open, each
opened by `up`. -/
def partner? (up down : Char) : Nat → Text → Option Nat
  | _, [] => none
  | n, c :: t =>
    if c = up then (partner? up down (n + 1) t).map (· + 1)
    else if c = down then
      match n with
      | 0 => some 0
      | n + 1 => (partner? up down n t).map (· + 1)
    else (partner? up down n t).map (· + 1)

/-- The position of the brace that closes the one at `pos`. -/
def closingOf? (t : Text) (pos : Nat) : Option Nat :=
  match t.drop pos with
  | '{' :: rest => (partner? '{' '}' 0 rest).map (pos + 1 + ·)
  | _ => none

/-- The position of the brace that the one at `pos` closes. -/
def openingOf? (t : Text) (pos : Nat) : Option Nat :=
  (partner? '}' '{' 0 (t.take pos).reverse).map (pos - 1 - ·)

/-- Whether the text closes the `n` braces that are open before it, and all of its own. -/
def closes : Nat → Text → Bool
  | n, [] => n = 0
  | n, c :: t =>
    if c = '{' then closes (n + 1) t
    else if c = '}' then
      match n with
      | 0 => false
      | n + 1 => closes n t
    else closes n t

/-- Whether every closing brace has an opening one before it and none stays open. -/
def isBalanced (t : Text) : Bool := closes 0 t

@[simp] theorem depth_nil : depth [] = 0 := rfl

@[simp] theorem depth_cons (c : Char) (t : Text) : depth (c :: t) = delta c + depth t := rfl

@[simp] theorem depth_append (s t : Text) : depth (s ++ t) = depth s + depth t := by
  induction s with
  | nil => simp
  | cons c s ih => rw [List.cons_append, depth_cons, depth_cons, ih, Int.add_assoc]

end Graft.Brace
