import Graft.Text.Basic

/-! # Quoted text

The form in which a message shows a text that it refuses: between double quotes, with a backslash
before a quote or a backslash, short escapes for the four usual controls, and the code point in
braces for every other character that would not be seen. -/

namespace Graft.Text

/-- The digits of `n` in base sixteen, in lower case. -/
def hexDigits (n : Nat) : Text := Nat.toDigits 16 n

/-- The form of one character inside quotes. -/
def quoteChar (c : Char) : Text :=
  match c with
  | '"' => ['\\', '"']
  | '\\' => ['\\', '\\']
  | '\n' => ['\\', 'n']
  | '\t' => ['\\', 't']
  | '\r' => ['\\', 'r']
  | '\x00' => ['\\', '0']
  | c => if isEscaped c then '\\' :: 'u' :: '{' :: hexDigits c.toNat ++ ['}'] else [c]

/-- A text between double quotes, every character in its quoted form. -/
def quoted (t : Text) : Text := '"' :: t.flatMap quoteChar ++ ['"']

end Graft.Text
