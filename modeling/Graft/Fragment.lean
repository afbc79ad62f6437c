import Graft.Anchor
import Graft.Text.Indent

/-! # Fragments

A fragment is a piece of text that a file should hold once.  It counts as present when one of its
markers occurs; otherwise `inject` puts it at an anchor as lines of their own.  `ensureLines` does
the same for a group of single lines, each of which is present when some line equals it. -/

namespace Graft

/-- What happened to a fragment. -/
inductive InjectionOutcome where
  | inserted (recognizer : String)
  | replaced
  | alreadyPresent
  | anchorNotFound
  deriving DecidableEq, Repr

namespace InjectionOutcome

def changed : InjectionOutcome → Bool
  | inserted _ | replaced => true
  | alreadyPresent | anchorNotFound => false

end InjectionOutcome

/-- A text after an injection, and what was done to it. -/
structure Injection where
  text : Text
  outcome : InjectionOutcome
  deriving DecidableEq, Repr

/-- A piece of text that a file should hold once. -/
structure Fragment where
  name : String
  text : Text
  /-- The pieces any of which shows that the fragment is present. -/
  markers : List Text
  /-- The header of the scope in which the markers are looked for, if there is such a scope. -/
  scope : Option Pattern
  blankLineBefore : Bool

namespace Fragment

/-- A fragment that is present when its text is, white space around it aside. -/
def ofText (name : String) (text : Text) : Fragment := ⟨name, text, [text.trim], none, false⟩

/-- The fragment with other markers; blank ones do not count. -/
def withMarkers (f : Fragment) (markers : List Text) : Fragment :=
  { f with markers := (markers.map Text.trim).filter fun m => !m.isEmpty }

/-- The fragment with its markers confined to a scope. -/
def within (f : Fragment) (header : Pattern) : Fragment := { f with scope := some header }

def withBlankLineBefore (f : Fragment) : Fragment := { f with blankLineBefore := true }

/-- The part of a text in which markers are looked for. -/
def region (f : Fragment) (t : Text) : Text :=
  match f.scope.bind fun header => Scope.find? header t with
  | some s => s.inner t
  | none => t

/-- Whether a text holds the fragment. -/
def isPresent (f : Fragment) (t : Text) : Bool := f.markers.any (·.occursIn (f.region t))

end Fragment

/-- Puts `piece`, at the indentation `indent`, between what lies before and after position `pos`,
as lines of their own. -/
def splice (t : Text) (pos : Nat) (piece indent : Text) (blankLineBefore : Bool) : Text :=
  let before := t.take pos
  let newline := if before.isEmpty || before.getLast? = some '\n' then [] else ['\n']
  let blankLine :=
    if !blankLineBefore || before.isEmpty || ['\n', '\n'].isSuffixOf before then [] else ['\n']
  before ++ newline ++ blankLine ++ Text.reindent piece indent ++ '\n' :: t.drop pos

/-- Makes sure that a text holds a fragment, which goes to the anchor or else to the place that
`fallback` finds. -/
def inject (f : Fragment) (anchor : Option Anchor) (fallback : Option Recognizer) (t : Text) :
    Injection :=
  if f.isPresent t then ⟨t, .alreadyPresent⟩
  else
    match anchor.orElse fun _ => fallback.bind (·.recognize? t) with
    | none => ⟨t, .anchorNotFound⟩
    | some a =>
      ⟨splice t a.place.insertAt f.text a.place.indent f.blankLineBefore, .inserted a.recognizer⟩

/-- The lines of a list that are neither blank nor in `seen`, each once. -/
def newLines (seen : List Text) : List Text → List Text
  | [] => []
  | l :: ls =>
    if l.isEmpty || seen.contains l then newLines seen ls else l :: newLines (l :: seen) ls

/-- Makes sure that each of some lines is a line of the text, white space around it aside.  Those
that are missing go together to the first anchor of a chain.  Any of the pieces `alternates` shows
that nothing is missing. -/
def ensureLines (ls alternates : List Text) (chain : List Recognizer) (t : Text) : Injection :=
  if alternates.any fun a => !a.isEmpty && a.occursIn t then ⟨t, .alreadyPresent⟩
  else
    let missing := newLines (t.lines.map Text.trim) (ls.map Text.trim)
    if missing.isEmpty then ⟨t, .alreadyPresent⟩
    else
      let f := (Fragment.ofText "" (Text.joinLines missing)).withMarkers []
      inject f (resolve? chain t) none t

end Graft
