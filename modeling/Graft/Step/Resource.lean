import Graft.Resource.PropertyList
import Graft.Resource.StringTable
import Graft.Step.Basic

/-! # Steps that write resources -/

namespace Graft

/-- The kinds of resource files. -/
inductive ResourceFormat where
  | stringTable
  | propertyList
  deriving DecidableEq, Repr

namespace ResourceFormat

/-- Writes entries into a document; `none` if it has no place for them. -/
def putAll? : ResourceFormat → Text → List ResourceEntry → Option Text
  | stringTable => StringTable.putAll?
  | propertyList => PropertyList.putAll?

end ResourceFormat

/-- Writes entries into a resource file. -/
structure ResourceStep where
  platform : Platform
  code : String
  format : ResourceFormat
  entries : List ResourceEntry

namespace ResourceStep

def apply (s : ResourceStep) (t : Text) (sink : Sink) : Text × Sink :=
  match s.format.putAll? t s.entries with
  | some t => (t, sink)
  | none => (t, sink.push ⟨s.platform, .unsupportedFileDialect, s.code,
      "resource file has no recognizable container; entries not written"⟩)

def step (s : ResourceStep) : Step := ⟨s.code, s.apply⟩

end ResourceStep

end Graft
