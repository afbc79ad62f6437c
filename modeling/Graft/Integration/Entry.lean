import Graft.Integration.Payload
import Graft.Step.Insertion

/-! # The application entry

The main class of an Android application gets imports, a call in `onCreate()`, an addition to the
list of packages in `getPackages()`, for which the list is made mutable, and the method that locates
the bundle. -/

namespace Graft.Entry

open Pattern

def onCreate : Pattern :=
  lit "override" ++ blanks1 ++ lit "fun" ++ blanks1 ++ lit "onCreate()"

def getPackages : Pattern :=
  lit "override" ++ blanks1 ++ lit "fun" ++ blanks1 ++ lit "getPackages()"

/-- The declaration of a list of packages that cannot be added to. -/
def immutablePackages : Pattern :=
  lit "val" ++ blanks1 ++ lit "packages" ++ blanks ++ lit "=" ++ blanks ++
    lit "PackageList(this).packages"

/-- The declaration of one that can. -/
def mutablePackages : Pattern :=
  lit "va" ++ Pattern.set (.oneOf ['l', 'r']) ++ blanks1 ++ lit "packages" ++ blanks ++
    lit ":" ++ blanks ++ lit "MutableList<ReactPackage>" ++ blanks ++ lit "="

def returnPackages : Pattern :=
  assert .lineStart ++ indent ++ lit "return" ++ blanks1 ++ lit "packages" ++ assert .boundary

def hostObject : Pattern :=
  lit "object" ++ blanks ++ lit ":" ++ blanks ++ lit "DefaultReactNativeHost" ++ assert .boundary

def loaderInit : Pattern := lit "SoLoader.init(this," ++ restOfLine ++ lit ")"

def superOnCreate : Pattern := lit "super.onCreate()"

/-- A member of the host object on one line: `override`, the words of the member, its type, and the
rest of the line after an equals sign. -/
def hostMember (keyword name type : String) : Pattern :=
  lit "override" ++ blanks1 ++ lit keyword ++ blanks1 ++ lit name ++ blanks ++ lit ":" ++ blanks ++
    lit type ++ blanks ++ lit "=" ++ restOfLine ++ assert .lineEnd

/-! ### Steps -/

def importsStep (p : Payload) (package : Text) : LinesStep where
  platform := .android
  code := "android-imports"
  lines := p.androidImportsFor package
  alternates := []
  dialect := none
  chain := [
    ⟨"last-import", .lastImportLine, .lastLineWith ["import ".toList]⟩,
    ⟨"package", .packageDeclaration, .firstLineWith ["package ".toList]⟩,
    .fileStart "file-start"]

def startUpStep (p : Payload) : InsertionStep where
  platform := .android
  code := "lifecycle-method"
  fragment := ((Fragment.ofText "start-up call" p.androidInitCall).withMarkers
    [p.androidInitMarker]).within onCreate
  requiredScope := some (onCreate, "onCreate()")
  chain := [
    (⟨"soloader-init", .statementLine, .afterLine loaderInit⟩ : Recognizer).within onCreate,
    (⟨"super-on-create", .superCallLine, .afterLine superOnCreate⟩ : Recognizer).within onCreate,
    .scopeStart "on-create-header" onCreate]
  scopeEnd := none
  lowConfidence := ["on-create-header"]
  fallbackCode := some "lifecycle-placement"

/-- The statements that add the library to the list of packages. -/
def registration (p : Payload) : Fragment :=
  (Fragment.ofText "package registration" p.androidPackageRegistration).withMarkers
    [p.androidPackageMarker]

/-- The line in which `getPackages()` returns the list. -/
def returnLine : Recognizer :=
  (⟨"return-packages", .statementLine, .beforeLine returnPackages⟩ : Recognizer).within getPackages

/-- Where the declaration of the list is looked for: inside `getPackages()` if that is found. -/
def declarationRegion (t : Text) : Text :=
  match Scope.find? getPackages t with
  | some s => s.inner t
  | none => t

/-- Reports that there is no line to put the registration before. -/
def returnNotFound (sink : Sink) : Sink :=
  sink.notFound .android "packages-return"
    "'return packages' not found in getPackages(); package registration skipped"

/-- Makes the list of packages mutable, or reports that its declaration is not a known one. -/
def makeMutable (p : Payload) (t : Text) (sink : Sink) : Text × Sink :=
  if immutablePackages.occursIn (declarationRegion t) then
    ((replaceStatement immutablePackages p.androidMutablePackages t).text, sink)
  else if mutablePackages.occursIn (declarationRegion t) || (registration p).isPresent t then
    (t, sink)
  else
    (t, sink.push ⟨.android, .fallback, "packages-declaration",
      "packages list declaration not recognized; registration added before 'return packages', "
        ++ "check that the list is mutable"⟩)

/-- Adds the library to the list of packages before the line that returns it. -/
def registerPackage (p : Payload) (t : Text) (sink : Sink) : Text × Sink :=
  match returnLine.recognize? t with
  | none => if (registration p).isPresent t then (t, sink) else (t, returnNotFound sink)
  | some _ =>
    let (t, sink) := makeMutable p t sink
    let r := inject (registration p) (returnLine.recognize? t) none t
    match r.outcome with
    | .anchorNotFound => (r.text, returnNotFound sink)
    | _ => (r.text, sink)

def packagesStep (p : Payload) : Step := ⟨"packages-registration", registerPackage p⟩

def accessorStep (p : Payload) : InsertionStep where
  platform := .android
  code := "js-bundle-accessor"
  fragment := ((Fragment.ofText "getJSBundleFile()" p.androidBundleAccessor).withMarkers
    [p.androidBundleAccessorMarker]).withBlankLineBefore
  requiredScope := none
  chain := [
    ⟨"is-hermes-enabled", .memberDeclaration,
      .afterLine (hostMember "val" "isHermesEnabled" "Boolean")⟩,
    ⟨"is-new-arch-enabled", .memberDeclaration,
      .afterLine (hostMember "val" "isNewArchEnabled" "Boolean")⟩,
    ⟨"get-use-developer-support", .memberDeclaration,
      .afterLine (hostMember "fun" "getUseDeveloperSupport()" "Boolean")⟩,
    ⟨"get-js-main-module-name", .memberDeclaration,
      .afterLine (hostMember "fun" "getJSMainModuleName()" "String")⟩,
    .afterScope "get-packages-end" getPackages]
  scopeEnd := some (.scopeEnd "host-object-end" hostObject)
  lowConfidence := []
  fallbackCode := none

/-- The steps for the application entry of a package. -/
def pipeline (p : Payload) (package : Text) : Pipeline :=
  ⟨.applicationEntry, .android,
    [(importsStep p package).step, (startUpStep p).step, packagesStep p, (accessorStep p).step]⟩

end Graft.Entry
