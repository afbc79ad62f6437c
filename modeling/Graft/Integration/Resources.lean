import Graft.Integration.Payload
import Graft.Step.Resource

/-! # Resource files

The deployment key and the address of the server go into the resource files of both platforms, each
under the name that the payload gives it.  A value that is missing or empty is not written. -/

namespace Graft.Resources

/-- Writes an entry into a list unless its value is missing or empty. -/
def addEntry (name : Text) (value : Option Text) (es : List ResourceEntry) : List ResourceEntry :=
  match value with
  | none | some [] => es
  | some value => (ResourceEntry.ofTexts name value).upsert es

/-- The entries for a deployment key and the address of a server. -/
def entries (p : Payload) (deploymentKey serverUrl : Option Text) : List ResourceEntry :=
  addEntry p.serverUrlName serverUrl (addEntry p.deploymentKeyName deploymentKey [])

/-- The step for the string table of an Android application. -/
def stringTablePipeline (es : List ResourceEntry) : Pipeline :=
  ⟨.resource, .android, [(ResourceStep.mk .android "strings-xml" .stringTable es).step]⟩

/-- The step for the property list of an iOS application. -/
def propertyListPipeline (es : List ResourceEntry) : Pipeline :=
  ⟨.resource, .ios, [(ResourceStep.mk .ios "info-plist" .propertyList es).step]⟩

end Graft.Resources
