import Graft.Text.Basic

/-! # Diagnostics

A step that cannot do its work does not fail: it leaves a diagnostic in a sink and hands the text on
as it was.  A sink keeps its diagnostics in the order in which they came. -/

namespace Graft

inductive Platform where
  | ios
  | android
  deriving DecidableEq, Repr

namespace Platform

def name : Platform → String
  | ios => "ios"
  | android => "android"

end Platform

inductive DiagnosticKind where
  /-- An anchor, a pair of braces or a named block was not found. -/
  | structuralNotFound
  /-- The file is written in a dialect that is not patched. -/
  | unsupportedFileDialect
  /-- Something was placed by a guess and should be looked at. -/
  | fallback
  deriving DecidableEq, Repr

namespace DiagnosticKind

def name : DiagnosticKind → String
  | structuralNotFound => "structural-not-found"
  | unsupportedFileDialect => "unsupported-file-dialect"
  | fallback => "fallback"

end DiagnosticKind

structure Diagnostic where
  platform : Platform
  kind : DiagnosticKind
  /-- The step that speaks. -/
  code : String
  message : String
  deriving DecidableEq, Repr

/-- The diagnostics of a run, in the order in which they came. -/
structure Sink where
  entries : List Diagnostic
  deriving DecidableEq, Repr

namespace Sink

def empty : Sink := ⟨[]⟩

/-- Adds a diagnostic after all others. -/
def push (s : Sink) (d : Diagnostic) : Sink := ⟨s.entries ++ [d]⟩

/-- Records that something was not found. -/
def notFound (s : Sink) (platform : Platform) (code message : String) : Sink :=
  s.push ⟨platform, .structuralNotFound, code, message⟩

def size (s : Sink) : Nat := s.entries.length

def isEmpty (s : Sink) : Bool := s.entries.isEmpty

/-- Whether some diagnostic carries the code. -/
def hasCode (s : Sink) (code : String) : Bool := s.entries.any fun d => d.code = code

/-- The diagnostics that came after the first `n`. -/
def since (s : Sink) (n : Nat) : List Diagnostic := s.entries.drop n

@[simp] theorem size_push (s : Sink) (d : Diagnostic) : (s.push d).size = s.size + 1 := by
  simp [size, push]

end Sink

end Graft
