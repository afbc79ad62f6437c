import Graft.Text.Line

/-! # The payload of an integration

Everything that is written into a project for one particular library: import lines, calls, methods,
fields, and the names of resource entries.  The engine reads none of it beyond looking for markers.
`Payload.standard` integrates a library that updates the bundle of a mobile application over the
air. -/

namespace Graft

/-- A field for the block of one build type. -/
structure BuildTypeField where
  block : Text
  field : Text
  deriving DecidableEq, Repr

structure Payload where
  /-- The import line of an application delegate in Swift. -/
  iosImport : Text
  /-- The import line of one in Objective-C. -/
  iosImportObjc : Text
  /-- Pieces any of which shows that the delegate has the import. -/
  iosImportMarkers : List Text
  /-- The method that locates the bundle, in Swift. -/
  iosBundleUrlSwift : Text
  /-- The same method in Objective-C. -/
  iosBundleUrlObjc : Text
  /-- The import lines of the application entry, with a placeholder for its package. -/
  androidImports : List Text
  /-- The statements that start the library. -/
  androidInitCall : Text
  androidInitMarker : Text
  /-- The statements that add the library to the list of packages. -/
  androidPackageRegistration : Text
  androidPackageMarker : Text
  /-- The declaration of a list of packages that can be added to. -/
  androidMutablePackages : Text
  /-- The method that locates the bundle. -/
  androidBundleAccessor : Text
  androidBundleAccessorMarker : Text
  /-- The last line of the build script. -/
  gradleApplyLine : Text
  gradleBuildTypeFields : List BuildTypeField
  /-- The block of the build script that holds one assignment, its key, and the assignment. -/
  gradleSimpleBlock : Text
  gradleSimpleKey : Text
  gradleSimpleField : Text
  /-- The names of the two resource entries. -/
  deploymentKeyName : Text
  serverUrlName : Text
  deriving DecidableEq, Repr

namespace Payload

/-- The text with the given lines. -/
def ofLines (ls : List String) : Text := Text.joinLines (ls.map String.toList)

def standardBundleUrlSwift : Text := ofLines [
  "override func bundleURL() -> URL? \x7b",
  "#if DEBUG",
  "  return RCTBundleURLProvider.sharedSettings().jsBundleURL(forBundleRoot: " ++
    "\".expo/.virtual-metro-entry\")",
  "#else",
  "  return CodePush.bundleURL()",
  "#endif",
  "\x7d"]

def standardBundleUrlObjc : Text := ofLines [
  "- (NSURL *)bundleURL",
  "\x7b",
  "#if DEBUG",
  "  return [[RCTBundleURLProvider sharedSettings] jsBundleURLForBundleRoot:" ++
    "@\".expo/.virtual-metro-entry\"];",
  "#else",
  "  return [CodePush bundleURL];",
  "#endif",
  "\x7d"]

def standardInitCall : Text := ofLines [
  "try \x7b",
  "    Log.d(\"CodePushDebug\", \"Attempting to pre-initialize CodePush in onCreate...\")",
  "    val deploymentKey = getString(R.string.CodePushDeploymentKey)",
  "    val isDebugMode = BuildConfig.DEBUG",
  "    CodePush.getInstance(deploymentKey, this, isDebugMode)",
  "\x7d catch (e: Exception) \x7b",
  "    Log.e(\"CodePushDebug\", \"Error pre-initializing CodePush in onCreate: \" + e.message, e)",
  "\x7d"]

def standardPackageRegistration : Text := ofLines [
  "try \x7b",
  "    val deploymentKey = getString(R.string.CodePushDeploymentKey)",
  "    val isDebugMode = BuildConfig.DEBUG",
  "    val codePushInstance = " ++
    "CodePush.getInstance(deploymentKey, this@MainApplication, isDebugMode)",
  "    if (packages.none \x7b it.javaClass.name == codePushInstance.javaClass.name \x7d) \x7b",
  "        packages.add(codePushInstance)",
  "    \x7d",
  "\x7d catch (e: Exception) \x7b",
  "    Log.e(\"CodePushDebug\", \"Error adding CodePush to packages in getPackages: \" + " ++
    "e.message, e)",
  "\x7d"]

def standardBundleAccessor : Text := ofLines [
  "override fun getJSBundleFile(): String \x7b",
  "    return CodePush.getJSBundleFile()",
  "\x7d"]

/-- The payload that is used where the configuration says nothing else. -/
def standard : Payload where
  iosImport := "import CodePush".toList
  iosImportObjc := "#import <CodePush/CodePush.h>".toList
  iosImportMarkers := ["import CodePush".toList, "#import <CodePush/CodePush.h>".toList]
  iosBundleUrlSwift := standardBundleUrlSwift
  iosBundleUrlObjc := standardBundleUrlObjc
  androidImports := [
    "import com.microsoft.codepush.react.CodePush".toList,
    "import \x7bpackage\x7d.R".toList,
    "import android.util.Log".toList]
  androidInitCall := standardInitCall
  androidInitMarker := "CodePush.getInstance(deploymentKey, this, isDebugMode)".toList
  androidPackageRegistration := standardPackageRegistration
  androidPackageMarker :=
    "CodePush.getInstance(deploymentKey, this@MainApplication, isDebugMode)".toList
  androidMutablePackages :=
    ("val packages: MutableList<ReactPackage> = " ++
      "PackageList(this).packages.toMutableList()").toList
  androidBundleAccessor := standardBundleAccessor
  androidBundleAccessorMarker := "override fun getJSBundleFile(): String".toList
  gradleApplyLine :=
    ("apply from: \"../../node_modules/@code-push-next/react-native-code-push/android/" ++
      "codepush.gradle\"").toList
  gradleBuildTypeFields := [
    ⟨"debug".toList, "buildConfigField \"boolean\", \"DEBUG\", \"true\"".toList⟩,
    ⟨"release".toList, "buildConfigField \"boolean\", \"DEBUG\", \"false\"".toList⟩]
  gradleSimpleBlock := "react".toList
  gradleSimpleKey := "bundleAssetName".toList
  gradleSimpleField := "bundleAssetName = \"main.jsbundle\"".toList
  deploymentKeyName := "CodePushDeploymentKey".toList
  serverUrlName := "CodePushServerURL".toList

/-- The placeholder for the package of the application. -/
def packagePlaceholder : Text := "\x7bpackage\x7d".toList

/-- The import lines of the application entry for a package. -/
def androidImportsFor (p : Payload) (package : Text) : List Text :=
  p.androidImports.map (Text.replace packagePlaceholder package)

end Payload

end Graft
