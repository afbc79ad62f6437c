import Graft.Diagnostic
import Graft.Text.Quoted

/-! # Steps and pipelines

A step is a named edit of a whole text that may leave diagnostics behind.  A pipeline is the list of
steps for one class of files, run in order; a step that finds nothing to hold on to does not keep
the later ones from running. -/

namespace Graft

/-- A named edit of a whole text. -/
structure Step where
  name : String
  apply : Text → Sink → Text × Sink

namespace Step

/-- Runs steps one after the other. -/
def runAll (steps : List Step) (t : Text) (sink : Sink) : Text × Sink :=
  steps.foldl (fun (t, sink) s => s.apply t sink) (t, sink)

end Step

/-- The classes of files that are patched. -/
inductive FileClass where
  | nativeSource
  | buildScript
  | applicationEntry
  | resource
  deriving DecidableEq, Repr

namespace FileClass

def name : FileClass → String
  | nativeSource => "NativeSource"
  | buildScript => "BuildScript"
  | applicationEntry => "ApplicationEntry"
  | resource => "Resource"

end FileClass

/-- The steps for one class of files. -/
structure Pipeline where
  fileClass : FileClass
  platform : Platform
  steps : List Step

namespace Pipeline

def run (p : Pipeline) (t : Text) (sink : Sink) : Text × Sink := Step.runAll p.steps t sink

def stepNames (p : Pipeline) : List String := p.steps.map (·.name)

/-- A line that tells pipelines apart. -/
def describe (p : Pipeline) : Text :=
  let platform :=
    match p.platform with
    | .ios => "Ios"
    | .android => "Android"
  let names := Text.joinWith ", ".toList (p.stepNames.map fun n => Text.quoted n.toList)
  ("TransformPipeline \x7b class: " ++ p.fileClass.name ++ ", platform: " ++ platform ++
    ", steps: [").toList ++ names ++ "] \x7d".toList

end Pipeline

end Graft
