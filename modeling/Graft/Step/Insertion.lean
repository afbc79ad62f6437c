import Graft.Replacement
import Graft.Step.Basic

/-! # Steps that insert code

`LinesStep` adds whole lines, `InsertionStep` a fragment at the first anchor of a chain,
`MethodStep` a method in place of the one there is, and `FinalLineStep` a line at the end. -/

namespace Graft

/-- Makes sure that a group of lines is present. -/
structure LinesStep where
  platform : Platform
  code : String
  lines : List Text
  /-- Pieces any of which shows that the lines are not needed. -/
  alternates : List Text
  /-- Other lines for files that hold a marker. -/
  dialect : Option (Text × List Text)
  chain : List Recognizer

namespace LinesStep

/-- The lines that a text should have. -/
def linesFor (s : LinesStep) (t : Text) : List Text :=
  match s.dialect with
  | some (marker, lines) => if marker.occursIn t then lines else s.lines
  | none => s.lines

def apply (s : LinesStep) (t : Text) (sink : Sink) : Text × Sink :=
  let r := ensureLines (s.linesFor t) s.alternates s.chain t
  match r.outcome with
  | .anchorNotFound =>
    (r.text, sink.notFound s.platform s.code "no import anchor found; imports not added")
  | _ => (r.text, sink)

def step (s : LinesStep) : Step := ⟨s.code, s.apply⟩

end LinesStep

/-- Makes sure that a fragment is present, inside a scope that has to exist if one is named. -/
structure InsertionStep where
  platform : Platform
  code : String
  fragment : Fragment
  /-- The header of the scope that has to exist, and what a reader calls it. -/
  requiredScope : Option (Pattern × String)
  chain : List Recognizer
  scopeEnd : Option Recognizer
  /-- The recognizers whose places are guesses. -/
  lowConfidence : List String
  /-- The code under which a guess is reported, if not that of the step. -/
  fallbackCode : Option String

namespace InsertionStep

/-- The name of the scope that has to exist and does not. -/
def missingScope? (s : InsertionStep) (t : Text) : Option String :=
  match s.requiredScope with
  | some (header, what) => if (Scope.find? header t).isNone then some what else none
  | none => none

/-- What an outcome leaves in the sink. -/
def report (s : InsertionStep) (sink : Sink) : InjectionOutcome → Sink
  | .anchorNotFound => sink.notFound s.platform s.code
      ("no anchor found for " ++ s.fragment.name ++ "; not inserted")
  | .inserted r =>
    if s.lowConfidence.contains r then
      sink.push ⟨s.platform, .fallback, s.fallbackCode.getD s.code,
        s.fragment.name ++ " inserted using fallback anchor '" ++ r ++ "'; review placement"⟩
    else sink
  | .replaced | .alreadyPresent => sink

def apply (s : InsertionStep) (t : Text) (sink : Sink) : Text × Sink :=
  if s.fragment.isPresent t then (t, sink)
  else
    match s.missingScope? t with
    | some what => (t, sink.notFound s.platform s.code
        (what ++ " not found; " ++ s.fragment.name ++ " skipped"))
    | none =>
      let r := inject s.fragment (resolve? s.chain t) s.scopeEnd t
      (r.text, s.report sink r.outcome)

def step (s : InsertionStep) : Step := ⟨s.code, s.apply⟩

end InsertionStep

/-- One form of a method. -/
structure MethodVariant where
  header : Pattern
  body : Text
  /-- What a file holds that is written in the dialect of this form; the plain dialect has no
  marker. -/
  dialectMarker : Option Text

/-- Replaces a method by a given body, or inserts it when no form of it is found. -/
structure MethodStep where
  platform : Platform
  code : String
  method : String
  variants : List MethodVariant
  chain : List Recognizer

namespace MethodStep

/-- The body to insert: that of the first form whose marker the text holds, or else that of the
first form without a marker. -/
def insertionBody? (s : MethodStep) (t : Text) : Option Text :=
  let marked := s.variants.find? fun v => v.dialectMarker.any (·.occursIn t)
  (marked.orElse fun _ => s.variants.find? (·.dialectMarker.isNone)).map (·.body)

def apply (s : MethodStep) (t : Text) (sink : Sink) : Text × Sink :=
  match s.variants.find? fun v => (Scope.find? v.header t).isSome with
  | some v => ((replaceScope v.header v.body t).text, sink)
  | none =>
    match s.insertionBody? t with
    | none => (t, sink.notFound s.platform s.code
        ("no " ++ s.method ++ " body applies to this file"))
    | some body =>
      let f := (Fragment.ofText s.method body).withBlankLineBefore
      let r := inject f (resolve? s.chain t) none t
      match r.outcome with
      | .anchorNotFound => (r.text, sink.notFound s.platform s.code
          ("could not find a place to insert " ++ s.method))
      | _ => (r.text, sink)

def step (s : MethodStep) : Step := ⟨s.code, s.apply⟩

end MethodStep

/-- Adds a line at the end of the file unless it occurs in it. -/
structure FinalLineStep where
  code : String
  line : Text

namespace FinalLineStep

def apply (s : FinalLineStep) (t : Text) (sink : Sink) : Text × Sink :=
  let line := s.line.trim
  if line.isEmpty || line.occursIn t then (t, sink)
  else
    let head := t.trimEnd
    if head.isEmpty then (line ++ ['\n'], sink)
    else (head ++ '\n' :: '\n' :: line ++ ['\n'], sink)

def step (s : FinalLineStep) : Step := ⟨s.code, s.apply⟩

end FinalLineStep

end Graft
