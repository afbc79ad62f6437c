import Graft.Anchor

/-! # Blocks

A block is declared by a line that starts with its name and an opening brace, and ends at the brace
that closes it.  `ensureField` and `ensureNested` make sure that a block, or a block inside a block,
exists and holds a field; `edit` confines an edit to the inside of a block.  Nothing outside the
block changes. -/

namespace Graft

/-- What an edit of a block did. -/
inductive BlockOutcome where
  | alreadyPresent
  | fieldAdded
  | fieldReplaced
  | blockCreated
  /-- The parent was missing and came into being with child and field. -/
  | parentCreated
  /-- A header was found whose brace is never closed. -/
  | braceNotFound
  deriving DecidableEq, Repr

namespace BlockOutcome

def changed : BlockOutcome → Bool
  | alreadyPresent | braceNotFound => false
  | fieldAdded | fieldReplaced | blockCreated | parentCreated => true

end BlockOutcome

/-- A text after an edit of a block, and what was done to it. -/
structure BlockEdit where
  text : Text
  outcome : BlockOutcome
  deriving DecidableEq, Repr

/-- The line that opens a block. -/
structure BlockHeader where
  lineStart : Nat
  indent : Text
  openAt : Nat
  deriving DecidableEq, Repr

namespace BlockHeader

/-- The header on a line that starts at position `start`: indentation, the name, further spaces and
tabs, and a brace. -/
def ofLine? (name : Text) (start : Nat) (line : Text) : Option BlockHeader := do
  let indent := line.leadingIndent
  let rest ← name.after? (line.drop indent.length)
  let gap := Text.leadingIndent rest
  if (rest.drop gap.length).head? = some '{' then
    some ⟨start, indent, start + indent.length + name.length + gap.length⟩
  else none

/-- The headers on some lines, each with the depth at the start of its line. -/
def onLines (name : Text) : Nat → Int → List Text → List (Int × BlockHeader)
  | _, _, [] => []
  | start, depth, line :: ls =>
    let rest := onLines name (start + line.length) (depth + Brace.depth line) ls
    match ofLine? name start line with
    | some h => (depth, h) :: rest
    | none => rest

/-- The header of the block `name`: the first at depth zero, or else the first at any depth. -/
def find? (name t : Text) : Option BlockHeader :=
  let hs := onLines name 0 0 t.pieces
  ((hs.find? (·.1 = 0)).orElse fun _ => hs.head?).map (·.2)

/-- The position of the brace that closes the block. -/
def closeAt? (h : BlockHeader) (t : Text) : Option Nat := Brace.closingOf? t h.openAt

end BlockHeader

namespace Block

/-- The text of a block with a given body. -/
def render (indent name body : Text) : Text :=
  indent ++ name ++ [' ', '{', '\n'] ++ body ++ indent ++ ['}', '\n']

/-- The text of a block with one field. -/
def renderField (indent name fieldIndent field : Text) : Text :=
  render indent name (fieldIndent ++ field ++ ['\n'])

/-- Adds a block at the end of the inside of another one.  What precedes the closing brace on its
line stays there. -/
def append (parent block : Text) : Text :=
  let head := parent.trimEnd
  let trailing : Text := parent.drop head.length
  let tail :=
    if trailing.contains '\n' then trailing.drop (trailing.lineStart trailing.length) else []
  let newline := if !head.isEmpty || parent.contains '\n' then ['\n'] else []
  head ++ newline ++ block ++ tail

/-- Adds a line at the end of the inside of a block. -/
def appendLine (inner lineIndent line closeIndent : Text) : Text :=
  inner.trimEnd ++ '\n' :: lineIndent ++ line ++ '\n' :: closeIndent

/-- The indentation of the last line that follows the line of the opening brace and is not
blank. -/
def memberIndent? (inner : Text) : Option Text :=
  (Text.lastFullLine? ((inner.dropWhile (· ≠ '\n')).drop 1)).map Text.leadingIndent

/-- Makes sure that the block `name` exists in a text and holds a field.  The field follows the
indentation of the members there are, and `fieldIndent` otherwise. -/
def ensureField (name field fieldIndent headerIndent t : Text) : BlockEdit :=
  let field := field.trim
  match BlockHeader.find? name t with
  | none => ⟨append t (renderField headerIndent name fieldIndent field), .blockCreated⟩
  | some h =>
    match h.closeAt? t with
    | none => ⟨t, .braceNotFound⟩
    | some close =>
      let inner := t.slice (h.openAt + 1) close
      if field.occursIn inner then ⟨t, .alreadyPresent⟩
      else
        let lineIndent := (memberIndent? inner).getD fieldIndent
        ⟨t.replaceRange (h.openAt + 1) close (appendLine inner lineIndent field h.indent),
          .fieldAdded⟩

/-- The inside of a block as an edit sees it: what is blank and on one line becomes a line of its
own. -/
def editable (h : BlockHeader) (inner : Text) : Text :=
  if inner.isBlank && !inner.contains '\n' then '\n' :: h.indent else inner

/-- Applies an edit to the inside of a block. -/
def edit (h : BlockHeader) (f : Text → BlockEdit) (t : Text) : BlockEdit :=
  match h.closeAt? t with
  | none => ⟨t, .braceNotFound⟩
  | some close =>
    let e := f (editable h (t.slice (h.openAt + 1) close))
    if e.outcome.changed then ⟨t.replaceRange (h.openAt + 1) close e.text, e.outcome⟩
    else ⟨t, e.outcome⟩

/-- Makes sure that a text holds the block `parent`, that block the block `child`, and that one a
field.  A child that comes into being in a parent that is there is one level deeper than the
parent. -/
def ensureNested (parent child field parentIndent childIndent fieldIndent t : Text) : BlockEdit :=
  match BlockHeader.find? parent t with
  | none => ⟨append t (render parentIndent parent
      (renderField childIndent child fieldIndent field.trim)), .parentCreated⟩
  | some h => edit h (ensureField child field fieldIndent (h.indent ++ indentUnit)) t

end Block

/-- A field in a block in a block. -/
structure NestedField where
  parent : Text
  child : Text
  field : Text
  /-- The indentation of the scope that the parent lies in. -/
  baseIndent : Text
  deriving DecidableEq, Repr

namespace NestedField

/-- The indentation of a parent that has to be created. -/
def parentIndent (n : NestedField) : Text := n.baseIndent ++ indentUnit

/-- The indentation of its child. -/
def childIndent (n : NestedField) : Text := n.parentIndent ++ indentUnit

/-- The indentation of the field. -/
def fieldIndent (n : NestedField) : Text := n.childIndent ++ indentUnit

/-- Makes sure that a text holds the parent, the parent the child, and the child the field. -/
def ensure (n : NestedField) (t : Text) : BlockEdit :=
  Block.ensureNested n.parent n.child n.field n.parentIndent n.childIndent n.fieldIndent t

end NestedField

end Graft
