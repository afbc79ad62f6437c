import Graft.Text.Offset

/-! # Indentation of a piece of text

`reindent` moves a piece of text to another indentation: the indentation that its lines have in
common goes, the new one comes in front of every line with something on it, and blank lines at the
two ends go.  Common indentation is measured in bytes, and any white space counts as part of it. -/

namespace Graft.Text

/-- The bytes of white space that a line starts with. -/
def indentWidth (line : Text) : Nat := byteLength (line.takeWhile Graft.isBlank)

/-- The least indentation of the lines that are not blank. -/
def margin (ls : List Text) : Nat :=
  (((ls.filter fun l => !isBlank l).map indentWidth).min?).getD 0

/-- The lines from the first to the last one that is not blank. -/
def dropBlankEnds (ls : List Text) : List Text :=
  ((ls.dropWhile isBlank).reverse.dropWhile isBlank).reverse

/-- A line without its first `width` bytes and without white space at its end.  When a character
lies across that cut, all white space at the start goes. -/
def cutIndent (width : Nat) (line : Text) : Text :=
  let pos := floorPos line width
  if byteOffset line pos = width then trimEnd (line.drop pos) else trim line

/-- A line moved from the margin `width` to the indentation `indent`. -/
def shiftLine (indent : Text) (width : Nat) (line : Text) : Text :=
  if isBlank line then [] else indent ++ cutIndent width line

/-- The lines of a text from the first to the last one that is not blank. -/
def bodyLines (t : Text) : List Text :=
  dropBlankEnds (dropEndWhile (· = '\n') (t.dropWhile (· = '\n'))).lines

/-- A text moved to the indentation `indent`, without a newline at its end. -/
def reindent (t indent : Text) : Text :=
  let ls := bodyLines t
  joinLines (ls.map (shiftLine indent (margin ls)))

/-- The lines of a text that are not blank, without the white space around them. -/
def fullLines (t : Text) : List Text := (t.lines.map trim).filter fun l => !l.isEmpty

/-- Whether two texts have the same lines, blank lines and white space around lines aside. -/
def sameLines (s t : Text) : Bool := fullLines s = fullLines t

end Graft.Text
