import Graft.Diagnostic
import Graft.Json.Printer

/-! # Reports

What a run did to each file, which files it could not process, and the diagnostics it gathered.  A
report is printed for a reader, or as JSON. -/

namespace Graft

/-- A file that was processed. -/
structure FileReport where
  path : Text
  platform : Platform
  changed : Bool
  /-- The difference that was not written, in a dry run. -/
  diff : Option Text
  deriving DecidableEq, Repr

/-- A file that could not be processed. -/
structure FileFailure where
  path : Text
  platform : Platform
  missingTarget : Bool
  error : Text
  deriving DecidableEq, Repr

structure RunReport where
  files : List FileReport
  failures : List FileFailure
  diagnostics : List Diagnostic
  deriving DecidableEq, Repr

namespace FileReport

def toValue (f : FileReport) : Json.Value :=
  let diff :=
    match f.diff with
    | some t => [("diff", Json.Value.text t)]
    | none => []
  .record ([("path", .text f.path), ("platform", .text f.platform.name.toList),
    ("changed", .boolean f.changed)] ++ diff)

/-- The line of a file, and its difference. -/
def render (dryRun : Bool) (f : FileReport) : Text :=
  let status :=
    if !f.changed then "unchanged" else if dryRun then "would patch" else "patched"
  ("[" ++ f.platform.name ++ "] " ++ status ++ ": ").toList ++ f.path ++ '\n' :: f.diff.getD []

end FileReport

namespace FileFailure

def toValue (f : FileFailure) : Json.Value :=
  .record [("path", .text f.path), ("platform", .text f.platform.name.toList),
    ("missing_target", .boolean f.missingTarget), ("error", .text f.error)]

/-- What to do about a missing file. -/
def hint : Text := "    generate the native projects first, then run again\n".toList

/-- The line of a failure, and what to do about a missing file. -/
def render (f : FileFailure) : Text :=
  ("[" ++ f.platform.name ++ "] FAILED: ").toList ++ f.error ++ '\n' ::
    if f.missingTarget then hint else []

end FileFailure

namespace Diagnostic

def toValue (d : Diagnostic) : Json.Value :=
  .record [("platform", .text d.platform.name.toList), ("kind", .text d.kind.name.toList),
    ("code", .text d.code.toList), ("message", .text d.message.toList)]

/-- The line of a diagnostic. -/
def render (d : Diagnostic) : Text :=
  ("[" ++ d.platform.name ++ "] warning (" ++ d.code ++ "): " ++ d.message ++ "\n").toList

end Diagnostic

namespace RunReport

def hasFailures (r : RunReport) : Bool := !r.failures.isEmpty

def changedFiles (r : RunReport) : List FileReport := r.files.filter (·.changed)

def toValue (r : RunReport) : Json.Value :=
  .record [("files", .list (r.files.map (·.toValue))),
    ("failures", .list (r.failures.map (·.toValue))),
    ("diagnostics", .list (r.diagnostics.map (·.toValue)))]

/-- The report for a reader. -/
def render (dryRun : Bool) (r : RunReport) : Text :=
  r.files.flatMap (·.render dryRun) ++ r.failures.flatMap (·.render) ++
    r.diagnostics.flatMap (·.render)

end RunReport

end Graft
