import Graft.Fragment

/-! # Replacements

Two edits that put new text in place of old: `replaceScope` for a whole scope from the line of its
header to its closing brace, `replaceStatement` for the first match of a pattern. -/

namespace Graft

/-- Replaces the scope with the given header by a text at the indentation of the header.  A scope
that has the same lines already is left as it is. -/
def replaceScope (header : Pattern) (replacement t : Text) : Injection :=
  match Scope.find? header t with
  | none => ⟨t, .anchorNotFound⟩
  | some s =>
    let start := t.lineStart s.headerStart
    if Text.sameLines (t.slice start (s.closeAt + 1)) replacement then ⟨t, .alreadyPresent⟩
    else
      let new := Text.reindent replacement (t.indentAt start)
      ⟨t.replaceRange start (s.closeAt + 1) new, .replaced⟩

/-- Replaces the first match of a pattern, unless the text holds the replacement already. -/
def replaceStatement (p : Pattern) (replacement t : Text) : Injection :=
  if Text.occursIn replacement t then ⟨t, .alreadyPresent⟩
  else
    match p.find? t with
    | none => ⟨t, .anchorNotFound⟩
    | some m => ⟨t.replaceRange m.start m.stop replacement, .replaced⟩

end Graft
