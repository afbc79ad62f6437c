import Graft.Command
import Graft.Text.Utf8

/-! # The program

The command on the files of the machine. -/

namespace Graft.Program

/-- The reason that the machine gives for an error, with its number. -/
def reason (e : IO.Error) : Text :=
  let numbered (code : UInt32) (details : String) : Text :=
    (details ++ " (os error " ++ toString code ++ ")").toList
  match e with
  | .alreadyExists _ code details => numbered code details
  | .otherError code details => numbered code details
  | .resourceBusy code details => numbered code details
  | .hardwareFault code details => numbered code details
  | .invalidArgument _ code details => numbered code details
  | .permissionDenied _ code details => numbered code details
  | .resourceExhausted _ code details => numbered code details
  | .inappropriateType _ code details => numbered code details
  | .noSuchThing _ code details => numbered code details
  | e => e.toString.toList

/-- The fault for an error that came up at a path. -/
def faultOf (p : Text) (e : IO.Error) : FileFault :=
  match e with
  | .noFileOrDirectory .. => .missing p FileFault.generateHint
  | e => .unusable p (reason e)

def readFile (p : Text) : IO (Except FileFault Text) := do
  match ← (IO.FS.readBinFile (String.ofList p)).toBaseIO with
  | .error e => return .error (faultOf p e)
  | .ok bytes =>
    match Text.decode? bytes.toList with
    | some t => return .ok t
    | none => return .error (.unusable p FileFault.notUtf8)

/-- Writes a new file and puts it in the place of the old one. -/
def writeFile (p t : Text) : IO (Except FileFault Unit) := do
  let scratch := String.ofList (p ++ ".graft".toList)
  let write : IO Unit := do
    IO.FS.writeFile scratch (String.ofList t)
    IO.FS.rename scratch (String.ofList p)
  match ← write.toBaseIO with
  | .error e =>
    discard (IO.FS.removeFile scratch).toBaseIO
    return .error (.unusable p (reason e))
  | .ok () => return .ok ()

def files : Files IO where
  isFile p := do return (← (IO.FS.readBinFile (String.ofList p)).toBaseIO).isOk
  read := readFile
  write := writeFile

def host : Host IO where
  files := files
  absolute? p := do
    match ← (IO.FS.realPath (String.ofList p)).toBaseIO with
    | .error _ => return none
    | .ok full => return some full.toString.toList
  lookup name := do return (← IO.getEnv name).map String.toList

end Graft.Program

def main (args : List String) : IO UInt32 := do
  let r ← Graft.Command.execute Graft.Program.host (args.map String.toList)
  IO.print (String.ofList r.output)
  return r.exitCode.toUInt32
