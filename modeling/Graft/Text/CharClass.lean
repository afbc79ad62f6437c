import Graft.Text.CharTable

/-! # Character classes

Predicates on characters: white space, letters and digits, word characters, and the characters that
need an escape in quoted text.  ASCII is decided without a table. -/

namespace Graft

open CharTable

/-- White space, including the separators beyond ASCII. -/
def isBlank (c : Char) : Bool := whiteSpace.has c.toNat

/-- Space and tab, the characters that indent a line. -/
def isIndent (c : Char) : Bool := c == ' ' || c == '\t'

/-- The two characters that can end a line. -/
def isLineEnd (c : Char) : Bool := c == '\n' || c == '\r'

/-- Decimal digits of any script. -/
def isDecimal (c : Char) : Bool :=
  if c.toNat < 128 then c.isDigit else decimalDigits.has c.toNat

/-- Alphabetic characters of any script. -/
def isLetter (c : Char) : Bool :=
  if c.toNat < 128 then c.isAlpha else alphabetic.has c.toNat

/-- Letters and numbers of every kind; a combining mark is neither. -/
def isAlphanumeric (c : Char) : Bool :=
  isLetter c || isDecimal c || (128 ≤ c.toNat && otherNumbers.has c.toNat)

/-- Letters, digits and marks that are too new for the classes of a pattern: those follow the
edition of the character database before the newest one. -/
def isLate (c : Char) : Bool := lateWordChars.has c.toNat

/-- The decimal digits that patterns know. -/
def isPatternDigit (c : Char) : Bool :=
  if c.toNat < 128 then c.isDigit else decimalDigits.has c.toNat && !isLate c

/-- The characters a word is made of: letters, decimal digits, marks and connectors. -/
def isWordChar (c : Char) : Bool :=
  if c.toNat < 128 then c.isAlphanum || c == '_'
  else (alphabetic.has c.toNat || decimalDigits.has c.toNat || wordMarks.has c.toNat) && !isLate c

/-- Characters that quoted text shows by their number. -/
def isEscaped (c : Char) : Bool := escaped.has c.toNat

/-- The value of a decimal digit. -/
def digitValue (c : Char) : Nat := c.toNat - '0'.toNat

/-- The value of a hexadecimal digit. -/
def hexValue? (c : Char) : Option Nat :=
  if c.isDigit then some (digitValue c)
  else if 'a' ≤ c && c ≤ 'f' then some (c.toNat - 'a'.toNat + 10)
  else if 'A' ≤ c && c ≤ 'F' then some (c.toNat - 'A'.toNat + 10)
  else none

theorem isBlank_of_isIndent {c : Char} (h : isIndent c) : isBlank c := by
  simp only [isIndent, Bool.or_eq_true, beq_iff_eq] at h
  rcases h with rfl | rfl <;> decide

end Graft
