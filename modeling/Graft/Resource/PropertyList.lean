import Graft.Resource.Basic
import Graft.Pattern.Match

/-! # Property lists

A property list is a markup document with a dictionary in which each key element is followed by the
element of its value.  Writing an entry replaces the string that follows its key, or adds key and
string before the end of the last dictionary. -/

namespace Graft.PropertyList

def closingTag : Text := "</dict>".toList

/-- A key with a string as its value: groups 1 and 2. -/
def pair : Pattern :=
  .lit "<key>" ++ .group 1 (.plus true (.set (.noneOf ['<']))) ++ .lit "</key>" ++ .blanks ++
    .lit "<string>" ++ .group 2 (.star false (.set .all)) ++ .lit "</string>"

/-- The span of the first string whose key is `name`, white space around it aside. -/
def findValue? (name t : Text) : Option (Nat × Nat) := do
  let m ← (pair.findAll t).find? fun m =>
    (m.group? 1).any fun s => Text.trim (t.slice s.1 s.2) = name
  m.group? 2

/-- The lines of a new pair. -/
def render (indent name content : Text) : Text :=
  indent ++ "<key>".toList ++ name ++ "</key>\n".toList ++
    indent ++ "<string>".toList ++ content ++ "</string>\n".toList

/-- Writes one entry. -/
def put (t : Text) (e : ResourceEntry) : Text :=
  let value := Markup.escape e.value
  match findValue? e.name t with
  | some (start, stop) => t.replaceRange start stop value
  | none =>
    let pos := Markup.closingTagPos closingTag t
    Markup.insertLines t pos (render (t.indentAt pos ++ ['\t']) e.name value)

/-- Writes entries into a list; `none` if the text has no end of a dictionary. -/
def putAll? (t : Text) (es : List ResourceEntry) : Option Text :=
  if closingTag.occursIn t then some (es.foldl put t) else none

end Graft.PropertyList
