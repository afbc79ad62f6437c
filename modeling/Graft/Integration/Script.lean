import Graft.Integration.Payload
import Graft.Path
import Graft.Step.Block
import Graft.Step.Insertion

/-! # The build script

The build script of an Android application gets a last line, a field for each build type and an
assignment.  Only scripts in Groovy are patched: one in Kotlin, told by its name, is reported and
left alone. -/

namespace Graft.Script

/-- Whether the name of a file marks a script in Kotlin. -/
def isKotlin (path : Text) : Bool :=
  (Path.fileName? path).any fun name => ".kts".toList.isSuffixOf name

/-- Whether a script can be patched; one that cannot leaves a diagnostic. -/
def checkDialect (path : Text) (sink : Sink) : Bool × Sink :=
  if isKotlin path then
    (false, sink.push ⟨.android, .unsupportedFileDialect, "build-script-dialect",
      String.ofList path ++ " is a Kotlin script; build script changes skipped"⟩)
  else (true, sink)

def applyStep (p : Payload) : FinalLineStep := ⟨"apply-line", p.gradleApplyLine⟩

def buildTypesStep (p : Payload) : NestedFieldsStep where
  platform := .android
  code := "android-block"
  scope := "android".toList
  parent := "buildTypes".toList
  fields := p.gradleBuildTypeFields.map fun f => (f.block, f.field)

def assignmentStep (p : Payload) : AssignmentStep where
  platform := .android
  code := "react-block"
  assignment := .ofTexts p.gradleSimpleBlock p.gradleSimpleKey p.gradleSimpleField
  after := some "android".toList

/-- The steps for a build script. -/
def pipeline (p : Payload) : Pipeline :=
  ⟨.buildScript, .android, [(applyStep p).step, (buildTypesStep p).step, (assignmentStep p).step]⟩

end Graft.Script
