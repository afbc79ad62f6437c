import Graft.Text.Line

/-! # Resource entries

Named values, as the resource files of an application hold them.  `upsert` is the meaning of
writing an entry: it changes the value of the entry with that name, or adds the entry at the
end. -/

namespace Graft

structure ResourceEntry where
  name : Text
  value : Text
  translatable : Bool
  deriving DecidableEq, Repr

/-- What happened to an entry. -/
inductive UpsertOutcome where
  | updated
  | inserted
  | unchanged
  deriving DecidableEq, Repr

namespace ResourceEntry

/-- An entry that is not to be translated. -/
def ofTexts (name value : Text) : ResourceEntry := ⟨name, value, false⟩

/-- The entries with the value of the first one named like `e` replaced by that of `e`, or with `e`
added. -/
def upsert (e : ResourceEntry) : List ResourceEntry → List ResourceEntry
  | [] => [e]
  | x :: xs => if x.name = e.name then { x with value := e.value } :: xs else x :: upsert e xs

/-- What `upsert` does to some entries. -/
def upsertOutcome (e : ResourceEntry) (xs : List ResourceEntry) : UpsertOutcome :=
  match xs.find? fun x => x.name = e.name with
  | none => .inserted
  | some x => if x.value = e.value then .unchanged else .updated

end ResourceEntry

namespace Markup

/-- A text as the content of an element. -/
def escape (t : Text) : Text :=
  t.flatMap fun c =>
    match c with
    | '&' => ['&', 'a', 'm', 'p', ';']
    | '<' => ['&', 'l', 't', ';']
    | '>' => ['&', 'g', 't', ';']
    | c => [c]

/-- Where lines before the last occurrence of a closing tag go: at the start of its line when only
white space precedes it there, and otherwise directly before it. -/
def closingTagPos (tag t : Text) : Nat :=
  let close := (Text.findLast? tag t).getD t.length
  let start := t.lineStart close
  if Text.isBlank (t.slice start close) then start else close

/-- Puts lines at a position, starting a new line there if need be. -/
def insertLines (t : Text) (pos : Nat) (new : Text) : Text :=
  let before := t.take pos
  let newline := if before.isEmpty || before.getLast? = some '\n' then [] else ['\n']
  before ++ newline ++ new ++ t.drop pos

end Markup

end Graft
