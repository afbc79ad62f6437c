import Graft.Run

/-! # The command

`graft [--project dir] [--config file] [--dry-run] [--json]` patches the project in a directory and
prints the report.  It looks at the world through a `Host`, so that it can run on any tree of
files. -/

namespace Graft

/-- What the command needs to know about the world. -/
structure Host (m : Type → Type) where
  files : Files m
  /-- The absolute path of what a path leads to, if that exists. -/
  absolute? : Text → m (Option Text)
  lookup : String → m (Option Text)

structure CommandOptions where
  project : Text
  /-- The path of the configuration, where it is not the usual one. -/
  config : Option Text
  dryRun : Bool
  json : Bool
  deriving DecidableEq, Repr

namespace CommandOptions

/-- The argument after the first occurrence of a flag, whatever it is. -/
def valueOf? (flag : Text) (args : List Text) : Option Text :=
  ((args.dropWhile (· ≠ flag)).drop 1).head?

def ofArgs (args : List Text) : CommandOptions where
  project := (valueOf? "--project".toList args).getD ['.']
  config := valueOf? "--config".toList args
  dryRun := args.contains "--dry-run".toList
  json := args.contains "--json".toList

end CommandOptions

/-- What the command prints, and its exit code. -/
structure CommandResult where
  output : Text
  exitCode : Nat
  deriving DecidableEq, Repr

namespace Command

/-- The name of the configuration in the directory of a project. -/
def defaultConfig : Text := "native-patcher.json".toList

/-- The result when there is nothing to run. -/
def failed : CommandResult := ⟨[], 1⟩

/-- The result of a run. -/
def ofReport (o : CommandOptions) (r : RunReport) : CommandResult where
  output := if o.json then r.toValue.render 0 ++ ['\n'] else r.render o.dryRun
  exitCode := if r.hasFailures then 1 else 0

variable {m : Type → Type} [Monad m]

/-- Runs the command with its arguments. -/
def execute (host : Host m) (args : List Text) : m CommandResult := do
  let o := CommandOptions.ofArgs args
  match ← host.absolute? o.project with
  | none => return failed
  | some root =>
    match ← host.files.read (o.config.getD (Path.join root defaultConfig)) with
    | .error _ => return failed
    | .ok text =>
      match Config.ofText text with
      | .error _ => return failed
      | .ok c =>
        let ios ← host.lookup Config.iosKeyVariable
        let android ← host.lookup Config.androidKeyVariable
        let c := c.fillKeys fun name => if name = Config.iosKeyVariable then ios else android
        return ofReport o (← run c (host.files.rooted root) o.dryRun)

end Command

end Graft
