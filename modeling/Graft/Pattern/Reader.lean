import Graft.Pattern.Size
import Graft.Pattern.Token

/-! # Reading patterns

`Pattern.read` builds a pattern from its text.  It folds over the tokens with a stack of the groups
that are open, each holding its finished branches and the branch that is being read.  Beside each
pattern it keeps how deep its text is nested; texts that nest too deep are refused, and so are
patterns that are too large. -/

namespace Graft.Pattern

/-- A pattern that has been read, and how deep its text is nested. -/
structure Nested where
  pattern : Pattern
  depth : Nat

namespace Nested

/-- A pattern that cannot have another inside. -/
def leaf (p : Pattern) : Nested := ⟨p, 0⟩

/-- A set in brackets: its entries are one level further in if there are several. -/
def bracketed (s : CharSet) : Nested := ⟨set s, if s.items.length ≤ 1 then 1 else 2⟩

/-- The depth of a list: several things together are one level above the deepest of them. -/
def level : List Nested → Nat
  | [] => 0
  | [n] => n.depth
  | ns => (ns.map depth).foldl max 0 + 1

/-- One after the other. -/
def inRow (ns : List Nested) : Nested := ⟨concat (ns.map pattern), level ns⟩

/-- A choice, earlier ones preferred. -/
def oneOf (ns : List Nested) : Nested := ⟨choice (ns.map pattern), level ns⟩

/-- Puts something around a pattern. -/
def wrap (f : Pattern → Pattern) (n : Nested) : Nested := ⟨f n.pattern, n.depth + 1⟩

end Nested

/-- A group that is being read. -/
structure Frame where
  /-- The number under which the group records what it matches, if it does. -/
  index : Option Nat
  /-- The flags that hold again after the group. -/
  outer : Flags
  /-- Finished branches, last first. -/
  branches : List Nested
  /-- Parts of the branch that is being read, last first. -/
  parts : List Nested
  /-- Whether the last part can be repeated. -/
  repeatable : Bool

namespace Frame

def start (index : Option Nat) (outer : Flags) : Frame := ⟨index, outer, [], [], false⟩

/-- Adds a part to the current branch. -/
def push (f : Frame) (n : Nested) : Frame := { f with parts := n :: f.parts, repeatable := true }

/-- Ends the current branch. -/
def branch (f : Frame) : Frame :=
  { f with branches := .inRow f.parts.reverse :: f.branches, parts := [], repeatable := false }

/-- What stands between the brackets of a group. -/
def body (f : Frame) : Nested := .oneOf f.branch.branches.reverse

/-- A finished group. -/
def whole (f : Frame) : Nested :=
  f.body.wrap fun p =>
    match f.index with
    | some i => group i p
    | none => p

end Frame

/-- The depth to which the text of a pattern may be nested. -/
def maxDepth : Nat := 250

/-- What has been read so far. -/
structure Reading where
  /-- The innermost open group, at the end the whole pattern. -/
  top : Frame
  /-- The groups around it, innermost first. -/
  enclosing : List Frame
  flags : Flags
  groups : Nat
  names : List Text

namespace Reading

def start (flags : Flags) : Reading := ⟨.start none flags, [], flags, 0, []⟩

def push (r : Reading) (n : Nested) : Reading := { r with top := r.top.push n }

/-- Adds a pattern that stands for itself. -/
def pushLeaf (r : Reading) (p : Pattern) : Reading := r.push (.leaf p)

/-- Reads one token. -/
def step (r : Reading) : Token → Except PatternFault Reading
  | .set s => .ok (r.pushLeaf (set s))
  | .bracketed s => .ok (r.push (.bracketed s))
  | .dot => .ok (r.pushLeaf (set (if r.flags.dotAll then .all else .noneOf ['\n'])))
  | .caret => .ok (r.pushLeaf (assert (if r.flags.multiLine then .lineStart else .textStart)))
  | .dollar => .ok (r.pushLeaf (assert (if r.flags.multiLine then .lineEnd else .textEnd)))
  | .assert a => .ok (r.pushLeaf (assert a))
  | .bar => .ok { r with top := r.top.branch }
  | .capture name =>
    if !name.isEmpty && r.names.contains name then .error .unknownGroup
    else .ok { r with
      top := .start (some (r.groups + 1)) r.flags
      enclosing := r.top :: r.enclosing
      groups := r.groups + 1
      names := if name.isEmpty then r.names else name :: r.names }
  | .bind change => .ok { r with
      top := .start none r.flags
      enclosing := r.top :: r.enclosing
      flags := change r.flags }
  | .close =>
    match r.enclosing with
    | [] => .error .unopenedGroup
    | f :: fs => .ok { r with
        top := f.push r.top.whole
        enclosing := fs
        flags := r.top.outer }
  | .flags change => .ok { r with
      top := { r.top.push (.leaf empty) with repeatable := false }
      flags := change r.flags }
  | .rounds low high greedy =>
    match r.top.repeatable, r.top.parts with
    | true, n :: ns =>
      .ok { r with top := { r.top with parts := n.wrap (rounds low high greedy) :: ns } }
    | _, _ => .error .nothingToRepeat

/-- The pattern that has been read. -/
def finish (r : Reading) : Except PatternFault Pattern :=
  if !r.enclosing.isEmpty then .error .unclosedGroup
  else if maxDepth < r.top.body.depth then .error .tooDeep
  else if !r.top.body.pattern.fits then .error .tooLarge
  else .ok r.top.body.pattern

end Reading

/-- The pattern that a text describes; `multiLine` is in force until the text says otherwise. -/
def read (multiLine : Bool) (t : Text) : Except PatternFault Pattern := do
  let tokens ← Token.ofText t
  let r ← tokens.foldlM Reading.step (.start ⟨multiLine, false⟩)
  r.finish

end Graft.Pattern
