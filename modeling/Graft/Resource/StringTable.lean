import Graft.Resource.Basic
import Graft.Pattern.Match

/-! # String tables

A string table is a markup document that holds one element for each string, its name in the first
attribute.  Writing an entry replaces the content of the element with that name, or adds an element
before the end of the table. -/

namespace Graft.StringTable

def closingTag : Text := "</resources>".toList

/-- A string element.  Group 1 is its name, group 2 the other attributes and group 3 its content,
which an element that closes itself does not have. -/
def element : Pattern :=
  .lit "<string" ++ .blanks1 ++ .lit "name=\"" ++ .group 1 (.plus true (.set (.noneOf ['"']))) ++
    .lit "\"" ++ .group 2 (.star false (.set (.noneOf ['>']))) ++
    .alt (.lit "/>") (.lit ">" ++ .group 3 (.star false (.set .all)) ++ .lit "</string>")

/-- The text of an element with the given attributes after its name. -/
def render (name attributes content : Text) : Text :=
  "<string name=\"".toList ++ name ++ '"' :: attributes ++ '>' :: content ++ "</string>".toList

/-- The text of a group, empty for a group that took no part. -/
def groupText (m : Match) (index : Nat) (t : Text) : Text :=
  match m.group? index with
  | some (start, stop) => t.slice start stop
  | none => []

/-- The first element with a given name. -/
def findElement? (name t : Text) : Option Match :=
  (element.findAll t).find? fun m => groupText m 1 t = name

/-- Writes one entry. -/
def put (t : Text) (e : ResourceEntry) : Text :=
  let value := Markup.escape e.value
  match findElement? e.name t with
  | some m =>
    match m.group? 3 with
    | some (start, stop) => t.replaceRange start stop value
    | none => t.replaceRange m.start m.stop (render e.name (groupText m 2 t).trimEnd value)
  | none =>
    let attributes := if e.translatable then [] else " translatable=\"false\"".toList
    let line := ' ' :: ' ' :: render e.name attributes value ++ ['\n']
    Markup.insertLines t (Markup.closingTagPos closingTag t) line

/-- Writes entries into a table; `none` if the text has no end of a table. -/
def putAll? (t : Text) (es : List ResourceEntry) : Option Text :=
  if closingTag.occursIn t then some (es.foldl put t) else none

end Graft.StringTable
