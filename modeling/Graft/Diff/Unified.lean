import Graft.Diff.Compaction
import Graft.Diff.Patience

/-! # Unified form

The difference of two texts is shown in groups of edits with two equal lines around them, under a
header with the name of the file.  The positions and lengths in the head of a group count lines from
one. -/

namespace Graft.Diff

/-- The equal lines that are shown around a change. -/
def radius : Nat := 2

namespace Edit

/-- The last `radius` lines of an equal stretch. -/
def lastLines (e : Edit) : Edit := e.dropFirst (e.oldLen - radius)

/-- The first `radius` lines of an equal stretch. -/
def firstLines (e : Edit) : Edit := e.dropLast (e.oldLen - radius)

end Edit

/-- Shortens a list of edits that starts with equal lines. -/
def trimFirst : List Edit → List Edit
  | [] => []
  | e :: es => (if e.tag = .equal then e.lastLines else e) :: es

/-- Shortens a list of edits that ends with equal lines. -/
def trimLast : List Edit → List Edit
  | [] => []
  | [e] => [if e.tag = .equal then e.firstLines else e]
  | e :: es => e :: trimLast es

/-- Cuts a list of edits at its long equal stretches; `group` holds the edits of the current group,
last first. -/
def cut (group : List Edit) : List Edit → List (List Edit)
  | [] => [group.reverse]
  | e :: es =>
    if e.tag = .equal && 2 * radius < e.oldLen then
      (e.firstLines :: group).reverse :: cut [e.lastLines] es
    else cut (e :: group) es

/-- The groups of a list of edits; one without a change is not shown. -/
def groups (es : List Edit) : List (List Edit) :=
  (cut [] (trimLast (trimFirst es))).filter fun g => g.any (·.tag ≠ .equal)

/-- The digits of a number. -/
def decimal (n : Nat) : Text := Nat.toDigits 10 n

/-- The lines from `start` up to `stop` in the head of a group. -/
def renderRange (start stop : Nat) : Text :=
  if stop - start = 1 then decimal (start + 1)
  else if stop ≤ start then decimal start ++ ",0".toList
  else decimal (start + 1) ++ ',' :: decimal (stop - start)

/-- The head of a group. -/
def renderHead (group : List Edit) : Text :=
  match group.head?, group.getLast? with
  | some first, some last =>
    "@@ -".toList ++ renderRange first.old (last.old + last.oldLen) ++
      " +".toList ++ renderRange first.new (last.new + last.newLen) ++ " @@\n".toList
  | _, _ => []

/-- A line with its sign; one without a terminator is marked. -/
def renderLine (sign : Char) (token : Text) : Text :=
  if token.getLast?.any isLineEnd then sign :: token
  else sign :: token ++ "\n\\ No newline at end of file\n".toList

/-- The lines of an edit. -/
def renderEdit (old new : List Text) (e : Edit) : Text :=
  match e.tag with
  | .equal => (e.oldTokens old).flatMap (renderLine ' ')
  | .delete => (e.oldTokens old).flatMap (renderLine '-')
  | .insert => (e.newTokens new).flatMap (renderLine '+')
  | .replace =>
    (e.oldTokens old).flatMap (renderLine '-') ++ (e.newTokens new).flatMap (renderLine '+')

/-- The two lines with the name of the file. -/
def renderHeader (file : Text) : Text :=
  "--- a/".toList ++ file ++ "\n+++ b/".toList ++ file ++ ['\n']

/-- The difference of two texts; equal texts have none. -/
def unified (file old new : Text) : Text :=
  if old = new then []
  else
    let a := tokens old
    let b := tokens new
    let gs := groups (compact a b (patience a b))
    renderHeader file ++ gs.flatMap fun g => renderHead g ++ g.flatMap (renderEdit a b)

end Graft.Diff
