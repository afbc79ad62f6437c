import Graft.Block.Basic

/-! # Assignments in a block

`BlockAssignment.ensure` makes sure that a block of the file assigns a value to a key.  An
assignment of the key that is commented out is taken first, then an active one with another value;
when there is neither, the assignment is added, and with it the block if need be. -/

namespace Graft

/-- An assignment that a block should hold. -/
structure BlockAssignment where
  block : Text
  key : Text
  /-- The whole assignment, without white space around it. -/
  field : Text
  deriving DecidableEq, Repr

namespace BlockAssignment

/-- An assignment from its three texts. -/
def ofTexts (block key field : Text) : BlockAssignment := ⟨block, key, field.trim⟩

/-- What follows the indentation of a line that assigns to a key. -/
def assigning (key : Text) : Pattern :=
  .ofText key ++ .blanks ++ .lit "=" ++ .restOfLine ++ .assert .lineEnd

/-- A line that assigns to the key; group 1 is its indentation. -/
def active (a : BlockAssignment) : Pattern :=
  .assert .lineStart ++ .group 1 .indent ++ assigning a.key

/-- A comment line that would assign to the key; group 1 is its indentation. -/
def commented (a : BlockAssignment) : Pattern :=
  .assert .lineStart ++ .group 1 .indent ++ .lit "//" ++ .blanks ++ assigning a.key

/-- Makes sure that the inside of the block holds the assignment. -/
def ensureInside (a : BlockAssignment) (closeIndent inner : Text) : BlockEdit :=
  if (a.active.findAll inner).any fun m => (m.text inner).trim = a.field then
    ⟨inner, .alreadyPresent⟩
  else
    match (a.commented.find? inner).orElse fun _ => a.active.find? inner with
    | some m =>
      let (start, stop) := (m.group? 1).getD (m.start, m.start)
      ⟨inner.replaceRange m.start m.stop (inner.slice start stop ++ a.field), .fieldReplaced⟩
    | none =>
      ⟨Block.appendLine inner (closeIndent ++ indentUnit) a.field closeIndent, .fieldAdded⟩

/-- The text of a block with nothing but the assignment. -/
def render (a : BlockAssignment) : Text := Block.renderField [] a.block indentUnit a.field

/-- Adds the block after the block `after`, if that exists, or at the end of the text. -/
def create (a : BlockAssignment) (after : Option Text) (t : Text) : Text :=
  let close := do (← BlockHeader.find? (← after) t).closeAt? t
  match close with
  | some close =>
    let head := t.take (t.nextLineStart close)
    let newline := if head.getLast? = some '\n' then [] else ['\n']
    head ++ newline ++ '\n' :: a.render ++ t.drop head.length
  | none =>
    let head := t.trimEnd
    if head.isEmpty then a.render else head ++ '\n' :: '\n' :: a.render

/-- Makes sure that the block exists and holds the assignment. -/
def ensure (a : BlockAssignment) (after : Option Text) (t : Text) : BlockEdit :=
  match BlockHeader.find? a.block t with
  | none => ⟨a.create after t, .blockCreated⟩
  | some h => Block.edit h (a.ensureInside h.indent) t

end BlockAssignment

end Graft
