import Graft.Text.Basic

/-! # Lines

A text is cut into pieces, each a line together with the newline that ends it; only the last piece
may lack one.  `lines` strips the terminators, `lineStart` and `nextLineStart` locate the piece
around a position.  The pieces concatenate to the text (`flatten_pieces`). -/

namespace Graft.Text

/-- The lines of a text, each with its newline. -/
def pieces : Text → List Text
  | [] => []
  | c :: t =>
    if c = '\n' then ['\n'] :: pieces t
    else
      match pieces t with
      | [] => [[c]]
      | p :: ps => (c :: p) :: ps

/-- Drops the newline at the end of a piece, with one carriage return before it. -/
def chomp (piece : Text) : Text :=
  match piece.reverse with
  | '\n' :: '\r' :: rest => rest.reverse
  | '\n' :: rest => rest.reverse
  | _ => piece

/-- The lines of a text without their terminators.  A carriage return counts as part of the
terminator only before a newline. -/
def lines (t : Text) : List Text := (pieces t).map chomp

/-- The lines of `ts`, a newline between each two. -/
def joinLines (ts : List Text) : Text := joinWith ['\n'] ts

/-- The start of the line that holds position `pos`. -/
def lineStart (t : Text) (pos : Nat) : Nat :=
  min pos t.length - ((t.take pos).reverse.takeWhile (· ≠ '\n')).length

/-- The position just past the newline that ends the line holding `pos`, or the end of the text. -/
def nextLineStart (t : Text) (pos : Nat) : Nat :=
  min t.length (pos + ((t.drop pos).takeWhile (· ≠ '\n')).length + 1)

/-- The spaces and tabs that a text starts with. -/
def leadingIndent (t : Text) : Text := t.takeWhile isIndent

/-- The spaces and tabs from position `pos` on. -/
def indentAt (t : Text) (pos : Nat) : Text := leadingIndent (t.drop pos)

/-- The last line with something other than white space, if there is one. -/
def lastFullLine? (t : Text) : Option Text := (lines t).reverse.find? fun l => !isBlank l

theorem flatten_pieces (t : Text) : (pieces t).flatten = t := by
  induction t with
  | nil => rfl
  | cons c t ih =>
    rw [pieces]
    split
    · next h => simp [h, ih]
    · split
      · next h => rw [h] at ih; simp [← ih]
      · next p ps h => rw [h] at ih; simpa using ih

theorem nil_notMem_pieces (t : Text) : [] ∉ pieces t := by
  induction t with
  | nil => simp [pieces]
  | cons c t ih =>
    rw [pieces]
    split
    · simp [ih]
    · split <;> simp_all

theorem nextLineStart_le (t : Text) (pos : Nat) : nextLineStart t pos ≤ t.length :=
  Nat.min_le_left _ _

theorem lineStart_le (t : Text) (pos : Nat) : lineStart t pos ≤ pos :=
  Nat.le_trans (Nat.sub_le _ _) (Nat.min_le_left _ _)

end Graft.Text
