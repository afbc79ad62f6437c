import Graft.Integration.Payload
import Graft.Step.Insertion

/-! # The application delegate

The delegate of an iOS application, in Swift or in Objective-C, gets an import and the method that
locates the bundle.  A file with an implementation section is taken to be Objective-C. -/

namespace Graft.Delegate

open Pattern

/-- The header of the method in Swift, with any white space. -/
def swiftBundleUrl : Pattern :=
  lit "override" ++ blanks1 ++ lit "func" ++ blanks1 ++ lit "bundleURL()" ++ blanks ++ lit "->" ++
    blanks ++ lit "URL?"

/-- The header of the method in Objective-C, with any white space. -/
def objcBundleUrl : Pattern :=
  lit "-" ++ blanks ++ lit "(NSURL" ++ blanks ++ lit "*" ++ blanks ++ lit ")" ++ blanks ++
    lit "bundleURL"

/-- The end of an implementation section. -/
def objcEnd : Pattern := assert .lineStart ++ indent ++ lit "@end" ++ assert .boundary

/-- What a delegate in Objective-C holds. -/
def objcMarker : Text := "@implementation".toList

def importStep (p : Payload) : LinesStep where
  platform := .ios
  code := "ios-import"
  lines := [p.iosImport]
  alternates := p.iosImportMarkers
  dialect := some (objcMarker, [p.iosImportObjc])
  chain := [
    ⟨"last-import", .lastImportLine, .lastLineWith ["import ".toList, "#import ".toList]⟩,
    .fileStart "file-start"]

def bundleUrlStep (p : Payload) : MethodStep where
  platform := .ios
  code := "bundle-url-method"
  method := "bundleURL"
  variants := [
    ⟨swiftBundleUrl, p.iosBundleUrlSwift, none⟩,
    ⟨objcBundleUrl, p.iosBundleUrlObjc, some objcMarker⟩]
  chain := [⟨"objc-end", .closingMarker, .beforeLine objcEnd⟩, .lastBrace "last-brace"]

/-- The steps for an application delegate. -/
def pipeline (p : Payload) : Pipeline :=
  ⟨.nativeSource, .ios, [(importStep p).step, (bundleUrlStep p).step]⟩

end Graft.Delegate
