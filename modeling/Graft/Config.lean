import Graft.Integration.PayloadReader
import Graft.Path

/-! # Configuration

A run is configured by a JSON text with a section for each platform and a payload.  A platform
without a section is left alone.  Deployment keys that the text does not give are looked up in the
environment.  From the sections follow the paths of the files to patch, relative to the project. -/

namespace Graft

open Json

structure IosConfig where
  deploymentKey : Option Text
  serverUrl : Option Text
  /-- The directory with the sources of the application. -/
  projectName : Option Text
  /-- The path of the application delegate, where it is not the usual one. -/
  appDelegate : Option Text
  /-- The path of the property list, where it is not the usual one. -/
  infoPlist : Option Text
  deriving DecidableEq, Repr

structure AndroidConfig where
  deploymentKey : Option Text
  serverUrl : Option Text
  /-- The package of the application, its parts joined by dots. -/
  package : Text
  /-- The directory of the Android project. -/
  projectRoot : Text
  deriving DecidableEq, Repr

structure Config where
  ios : Option IosConfig
  android : Option AndroidConfig
  payload : Payload
  deriving DecidableEq, Repr

/-- Why a text is no configuration. -/
inductive ConfigFault where
  | json (f : Fault)
  | invalidPackage (package : Text)
  | noIosLocation
  deriving DecidableEq, Repr

namespace ConfigFault

def message : ConfigFault → Text
  | json (.shape f) => "JSON error: ".toList ++ f.message
  | json _ => "JSON error".toList
  | invalidPackage package =>
    "invalid configuration: android.package is not a valid package name: ".toList ++ package.quoted
  | noIosLocation =>
    "invalid configuration: ios requires either projectName or appDelegate".toList

end ConfigFault

/-! ### Paths -/

namespace IosConfig

def appDelegatePath (c : IosConfig) : Text :=
  match c.appDelegate with
  | some p => p
  | none => Path.join (Path.join "ios".toList (c.projectName.getD [])) "AppDelegate.swift".toList

/-- The path of the property list, if it can be told. -/
def infoPlistPath? (c : IosConfig) : Option Text :=
  c.infoPlist.orElse fun _ => c.projectName.map fun name =>
    Path.join (Path.join "ios".toList name) "Info.plist".toList

end IosConfig

namespace AndroidConfig

/-- The directory of the package: a directory for each of its parts. -/
def packageDir (c : AndroidConfig) : Text := (Text.splitAt '.' c.package).foldl Path.join []

def mainApplicationPath (c : AndroidConfig) : Text :=
  Path.join (Path.join (Path.join c.projectRoot "app/src/main/java".toList) c.packageDir)
    "MainApplication.kt".toList

def buildScriptPath (c : AndroidConfig) : Text := Path.join c.projectRoot "app/build.gradle".toList

/-- The path of the build script in Kotlin. -/
def kotlinScriptPath (c : AndroidConfig) : Text :=
  Path.join c.projectRoot "app/build.gradle.kts".toList

def stringsPath (c : AndroidConfig) : Text :=
  Path.join c.projectRoot "app/src/main/res/values/strings.xml".toList

/-- Whether a text is a package name: parts of letters, numbers and underscores, none empty. -/
def isPackageName (package : Text) : Bool :=
  (Text.splitAt '.' package).all fun part =>
    !part.isEmpty && part.all fun c => isAlphanumeric c || c == '_'

end AndroidConfig

/-! ### Reading -/

namespace IosConfig

def layout : Layout where
  name := "IosConfig"
  fields := [
    ⟨"deploymentKey", false, Decoder.fault? (.option .text)⟩,
    ⟨"serverUrl", false, Decoder.fault? (.option .text)⟩,
    ⟨"projectName", false, Decoder.fault? (.option .text)⟩,
    ⟨"appDelegate", false, Decoder.fault? (.option .path)⟩,
    ⟨"infoPlist", false, Decoder.fault? (.option .path)⟩]

def decoder : Decoder IosConfig := .ofLayout layout fun fs => return {
  deploymentKey := ← fs.optional "deploymentKey" .text
  serverUrl := ← fs.optional "serverUrl" .text
  projectName := ← fs.optional "projectName" .text
  appDelegate := ← fs.optional "appDelegate" .path
  infoPlist := ← fs.optional "infoPlist" .path }

end IosConfig

namespace AndroidConfig

def layout : Layout where
  name := "AndroidConfig"
  fields := [
    ⟨"deploymentKey", false, Decoder.fault? (.option .text)⟩,
    ⟨"serverUrl", false, Decoder.fault? (.option .text)⟩,
    ⟨"package", false, Decoder.fault? .text⟩,
    ⟨"projectRoot", true, Decoder.fault? .path⟩]

def decoder : Decoder AndroidConfig := .ofLayout layout fun fs => return {
  deploymentKey := ← fs.optional "deploymentKey" .text
  serverUrl := ← fs.optional "serverUrl" .text
  package := ← fs.required "package" .text
  projectRoot := ← fs.withDefault "projectRoot" .path "android".toList }

end AndroidConfig

namespace Config

def layout : Layout where
  name := "PatcherConfig"
  fields := [
    ⟨"ios", false, Decoder.fault? (.option IosConfig.decoder)⟩,
    ⟨"android", false, Decoder.fault? (.option AndroidConfig.decoder)⟩,
    ⟨"profile", true, Decoder.fault? Payload.decoder⟩]

def decoder : Decoder Config := .ofLayout layout fun fs => return {
  ios := ← fs.optional "ios" IosConfig.decoder
  android := ← fs.optional "android" AndroidConfig.decoder
  payload := ← fs.withDefault "profile" Payload.decoder .standard }

/-- What keeps a configuration that has the right shape from being used. -/
def fault? (c : Config) : Option ConfigFault :=
  let android := c.android.bind fun a =>
    if AndroidConfig.isPackageName a.package then none else some (.invalidPackage a.package)
  let ios := c.ios.bind fun i =>
    if i.projectName.isNone && i.appDelegate.isNone then some .noIosLocation else none
  android.orElse fun _ => ios

/-- The configuration that a text holds. -/
def ofText (t : Text) : Except ConfigFault Config :=
  match Json.decode decoder t with
  | .error f => .error (.json f)
  | .ok c =>
    match c.fault? with
    | some f => .error f
    | none => .ok c

/-! ### Keys from the environment -/

def iosKeyVariable : String := "IOS_CODEPUSH_DEPLOYMENT_KEY"

def androidKeyVariable : String := "ANDROID_CODEPUSH_DEPLOYMENT_KEY"

/-- The configuration with missing deployment keys taken from the environment. -/
def fillKeys (c : Config) (lookup : String → Option Text) : Config where
  ios := c.ios.map fun i =>
    { i with deploymentKey := i.deploymentKey.orElse fun _ => lookup iosKeyVariable }
  android := c.android.map fun a =>
    { a with deploymentKey := a.deploymentKey.orElse fun _ => lookup androidKeyVariable }
  payload := c.payload

end Config

end Graft
