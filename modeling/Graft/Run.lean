import Graft.Config
import Graft.Diff.Unified
import Graft.Files.Basic
import Graft.Integration.Delegate
import Graft.Integration.Entry
import Graft.Integration.Resources
import Graft.Integration.Script
import Graft.Report

/-! # Runs

A run reads each file that the configuration asks for once, sends it through its pipeline, and
writes it once if that changed it; a dry run shows the difference instead.  A file that cannot be
read or written is reported and does not keep the others from being processed. -/

namespace Graft

/-- A file to patch. -/
structure Target where
  path : Text
  pipeline : Pipeline

variable {m : Type → Type} [Monad m]

namespace Config

/-- The files of the iOS project. -/
def iosTargets (c : Config) (i : IosConfig) : List Target :=
  let es := Resources.entries c.payload i.deploymentKey i.serverUrl
  let plist :=
    match i.infoPlistPath? with
    | some p => if es.isEmpty then [] else [⟨p, Resources.propertyListPipeline es⟩]
    | none => []
  ⟨i.appDelegatePath, Delegate.pipeline c.payload⟩ :: plist

/-- The string table and the entry of the Android project. -/
def androidSources (c : Config) (a : AndroidConfig) : List Target :=
  let es := Resources.entries c.payload a.deploymentKey a.serverUrl
  let strings := if es.isEmpty then [] else [⟨a.stringsPath, Resources.stringTablePipeline es⟩]
  strings ++ [⟨a.mainApplicationPath, Entry.pipeline c.payload a.package⟩]

/-- The build script of the Android project, unless it is one that is left alone.  A script in
Kotlin counts where there is none in Groovy. -/
def androidScript (c : Config) (a : AndroidConfig) (files : Files m) (sink : Sink) :
    m (List Target × Sink) := do
  let groovy ← files.isFile a.buildScriptPath
  let kotlin ← if groovy then pure false else files.isFile a.kotlinScriptPath
  let path := if kotlin then a.kotlinScriptPath else a.buildScriptPath
  let (ok, sink) := Script.checkDialect path sink
  return (if ok then [⟨path, Script.pipeline c.payload⟩] else [], sink)

/-- The files to patch, those of iOS first. -/
def targets (c : Config) (files : Files m) : m (List Target × Sink) := do
  let ios := (c.ios.map c.iosTargets).getD []
  match c.android with
  | none => return (ios, .empty)
  | some a =>
    let (script, sink) ← c.androidScript a files .empty
    return (ios ++ c.androidSources a ++ script, sink)

end Config

namespace Target

/-- The report on a file, from what was read and what became of it. -/
def report (target : Target) (dryRun : Bool) (old new : Text) : FileReport where
  path := target.path
  platform := target.pipeline.platform
  changed := new ≠ old
  diff :=
    if dryRun && new ≠ old then some (Diff.unified (Path.display target.path) old new) else none

/-- Patches a file. -/
def patch (target : Target) (files : Files m) (dryRun : Bool) (sink : Sink) :
    m (Except FileFault FileReport × Sink) := do
  match ← files.read target.path with
  | .error f => return (.error f, sink)
  | .ok old =>
    let (new, sink) := target.pipeline.run old sink
    let report := target.report dryRun old new
    if report.changed && !dryRun then
      match ← files.write target.path new with
      | .error f => return (.error f, sink)
      | .ok () => return (.ok report, sink)
    else return (.ok report, sink)

/-- The report on a file that could not be processed. -/
def failure (target : Target) (f : FileFault) : FileFailure :=
  ⟨target.path, target.pipeline.platform, f.isMissing, f.message⟩

/-- Patches files one after the other. -/
def patchAll (files : Files m) (dryRun : Bool) : List Target → Sink → m RunReport
  | [], sink => return ⟨[], [], sink.entries⟩
  | target :: targets, sink => do
    let (result, sink) ← target.patch files dryRun sink
    let rest ← patchAll files dryRun targets sink
    match result with
    | .ok file => return { rest with files := file :: rest.files }
    | .error f => return { rest with failures := target.failure f :: rest.failures }

end Target

/-- Patches the files that a configuration asks for. -/
def run (c : Config) (files : Files m) (dryRun : Bool) : m RunReport := do
  let (targets, sink) ← c.targets files
  Target.patchAll files dryRun targets sink

end Graft
