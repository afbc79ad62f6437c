import Graft.Integration.Payload
import Graft.Json.Decoder

/-! # Reading a payload

A payload is read from a structure in which every field may be missing; the standard payload takes
its place. -/

namespace Graft

open Json

namespace BuildTypeField

def layout : Layout where
  name := "BuildTypeField"
  fields := [
    ⟨"block", false, Decoder.fault? .text⟩,
    ⟨"field", false, Decoder.fault? .text⟩]

def decoder : Decoder BuildTypeField := .ofLayout layout fun fs =>
  return ⟨← fs.required "block" .text, ← fs.required "field" .text⟩

end BuildTypeField

namespace Payload

/-- A field that holds a text. -/
def textField (name : String) : Field := ⟨name, true, Decoder.fault? .text⟩

/-- A field that holds a list of texts. -/
def listField (name : String) : Field := ⟨name, true, Decoder.fault? (.list .text)⟩

def layout : Layout where
  name := "IntegrationProfile"
  fields := [
    textField "iosImport",
    textField "iosImportObjc",
    listField "iosImportMarkers",
    textField "iosBundleUrlSwift",
    textField "iosBundleUrlObjc",
    listField "androidImports",
    textField "androidInitCall",
    textField "androidInitMarker",
    textField "androidPackageRegistration",
    textField "androidPackageMarker",
    textField "androidMutablePackages",
    textField "androidBundleAccessor",
    textField "androidBundleAccessorMarker",
    textField "gradleApplyLine",
    ⟨"gradleBuildTypeFields", true, Decoder.fault? (.list BuildTypeField.decoder)⟩,
    textField "gradleSimpleBlock",
    textField "gradleSimpleKey",
    textField "gradleSimpleField",
    textField "deploymentKeyName",
    textField "serverUrlName"]

def decoder : Decoder Payload := .ofLayout layout fun fs => do
  let text (name : String) (default : Text) := fs.withDefault name .text default
  let texts (name : String) (default : List Text) := fs.withDefault name (.list .text) default
  return {
    iosImport := ← text "iosImport" standard.iosImport
    iosImportObjc := ← text "iosImportObjc" standard.iosImportObjc
    iosImportMarkers := ← texts "iosImportMarkers" standard.iosImportMarkers
    iosBundleUrlSwift := ← text "iosBundleUrlSwift" standard.iosBundleUrlSwift
    iosBundleUrlObjc := ← text "iosBundleUrlObjc" standard.iosBundleUrlObjc
    androidImports := ← texts "androidImports" standard.androidImports
    androidInitCall := ← text "androidInitCall" standard.androidInitCall
    androidInitMarker := ← text "androidInitMarker" standard.androidInitMarker
    androidPackageRegistration :=
      ← text "androidPackageRegistration" standard.androidPackageRegistration
    androidPackageMarker := ← text "androidPackageMarker" standard.androidPackageMarker
    androidMutablePackages := ← text "androidMutablePackages" standard.androidMutablePackages
    androidBundleAccessor := ← text "androidBundleAccessor" standard.androidBundleAccessor
    androidBundleAccessorMarker :=
      ← text "androidBundleAccessorMarker" standard.androidBundleAccessorMarker
    gradleApplyLine := ← text "gradleApplyLine" standard.gradleApplyLine
    gradleBuildTypeFields := ← fs.withDefault "gradleBuildTypeFields"
      (.list BuildTypeField.decoder) standard.gradleBuildTypeFields
    gradleSimpleBlock := ← text "gradleSimpleBlock" standard.gradleSimpleBlock
    gradleSimpleKey := ← text "gradleSimpleKey" standard.gradleSimpleKey
    gradleSimpleField := ← text "gradleSimpleField" standard.gradleSimpleField
    deploymentKeyName := ← text "deploymentKeyName" standard.deploymentKeyName
    serverUrlName := ← text "serverUrlName" standard.serverUrlName }

end Payload

end Graft
