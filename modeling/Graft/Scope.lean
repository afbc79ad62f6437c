import Graft.Brace
import Graft.Pattern.Match

/-! # Scopes

A scope is a stretch between braces that is found by its header: the first match of a pattern, the
first opening brace at or after the start of that match, and the brace that closes it. -/

namespace Graft

structure Scope where
  /-- Where the header was matched. -/
  headerStart : Nat
  openAt : Nat
  closeAt : Nat
  deriving DecidableEq, Repr

namespace Scope

/-- The first scope with a header. -/
def find? (header : Pattern) (t : Text) : Option Scope := do
  let m ← header.find? t
  let gap ← Text.find? ['{'] (t.drop m.start)
  let openAt := m.start + gap
  let closeAt ← Brace.closingOf? t openAt
  return ⟨m.start, openAt, closeAt⟩

/-- What lies strictly between the braces. -/
def inner (s : Scope) (t : Text) : Text := t.slice (s.openAt + 1) s.closeAt

end Scope

end Graft
