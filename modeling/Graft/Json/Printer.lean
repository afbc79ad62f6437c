import Graft.Text.Quoted
import Graft.Text.Line

/-! # Writing JSON

Values for reports, and their text with one item or member on a line, indented by two spaces for
each level. -/

namespace Graft.Json

inductive Value where
  | boolean (b : Bool)
  | text (t : Text)
  | list (items : List Value)
  | record (members : List (String × Value))

namespace Value

/-- The digits of a number below 256 in base sixteen, always two. -/
def twoHexDigits (n : Nat) : Text :=
  if n < 16 then '0' :: Text.hexDigits n else Text.hexDigits n

/-- The form of one character inside a string. -/
def escapeChar (c : Char) : Text :=
  match c with
  | '"' => ['\\', '"']
  | '\\' => ['\\', '\\']
  | '\x08' => ['\\', 'b']
  | '\x0C' => ['\\', 'f']
  | '\n' => ['\\', 'n']
  | '\r' => ['\\', 'r']
  | '\t' => ['\\', 't']
  | c => if c.toNat < 0x20 then '\\' :: 'u' :: '0' :: '0' :: twoHexDigits c.toNat else [c]

/-- A string in quotes. -/
def renderText (t : Text) : Text := '"' :: t.flatMap escapeChar ++ ['"']

/-- Some lines between two brackets; nothing at all stays on one line. -/
def bracketed (opening closing : Char) (indent : Nat) (parts : List Text) : Text :=
  if parts.isEmpty then [opening, closing]
  else
    let newline (n : Nat) : Text := '\n' :: List.replicate (2 * n) ' '
    opening :: newline (indent + 1) ++ Text.joinWith (',' :: newline (indent + 1)) parts ++
      newline indent ++ [closing]

mutual

/-- The text of a value on the level `indent`. -/
def render (indent : Nat) : Value → Text
  | boolean b => (toString b).toList
  | text t => renderText t
  | list items => bracketed '[' ']' indent (renderItems (indent + 1) items)
  | record members => bracketed '{' '}' indent (renderMembers (indent + 1) members)

/-- The texts of some values. -/
def renderItems (indent : Nat) : List Value → List Text
  | [] => []
  | v :: vs => render indent v :: renderItems indent vs

/-- The texts of some members. -/
def renderMembers (indent : Nat) : List (String × Value) → List Text
  | [] => []
  | m :: ms =>
    (renderText m.1.toList ++ ':' :: ' ' :: render indent m.2) :: renderMembers indent ms

end

end Value

end Graft.Json
