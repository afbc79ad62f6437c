import Graft.Proofs.Path
import Graft.Proofs.Integration.Imports

/-! # The path of the application entry

A configuration that is accepted names its package by parts that are names of directories
(`isName_of_mem_packageParts`).  So the directory of the package is the package with slashes for its
dots, and the path of the application entry leads from the project root down through names only
(`ofText_mainApplicationPath`). -/

namespace Graft

variable {package : Text}

theorem eq_ok_of_toOption {ε α : Type} {x : Except ε α} {a : α} (h : x.toOption = some a) :
    x = .ok a := by
  cases x with
  | error f => simp [Except.toOption] at h
  | ok b => rw [Option.some.inj h]

theorem Config.ofText_eq_ok {t : Text} {c : Config} :
    ofText t = .ok c ↔ Json.decode decoder t = .ok c ∧ c.fault? = none := by
  unfold ofText
  cases Json.decode decoder t with
  | error f => simp
  | ok c' =>
      simp only [Except.ok.injEq]
      cases hfault : c'.fault? with
      | some f =>
          refine ⟨fun h => (nomatch h), fun ⟨hc, hok⟩ => ?_⟩
          rw [← hc, hfault] at hok
          simp at hok
      | none =>
          simp only [Except.ok.injEq]
          exact ⟨fun hc => ⟨hc, by rw [← hc, hfault]⟩, fun h => h.1⟩

theorem Config.isPackageName_of_ofText {t : Text} {c : Config} {a : AndroidConfig}
    (h : Config.ofText t = .ok c) (ha : c.android = some a) :
    AndroidConfig.isPackageName a.package := by
  have hfault := (Config.ofText_eq_ok.mp h).2
  unfold Config.fault? at hfault
  rw [ha, Option.bind_some] at hfault
  by_cases hp : AndroidConfig.isPackageName a.package
  · exact hp
  · rw [if_neg hp] at hfault
    simp at hfault

namespace AndroidConfig

/-- The part of a package name is made of letters, numbers and underscores. -/
theorem isName_of_mem_packageParts (h : isPackageName package) {part : Text}
    (hpart : part ∈ Text.splitAt '.' package) : Path.IsName part := by
  have hboth := List.all_eq_true.mp h part hpart
  rw [Bool.and_eq_true] at hboth
  have hchars : ∀ c, (isAlphanumeric c || c == '_') = false → c ∉ part := fun c hc hmem => by
    have := List.all_eq_true.mp hboth.2 c hmem
    rw [hc] at this
    simp at this
  refine ⟨fun e => ?_, hchars '/' (by decide), fun e => ?_, fun e => ?_⟩
  · rw [e] at hboth
    simp at hboth
  · exact hchars '.' (by decide) (by rw [e]; exact List.mem_cons_self)
  · exact hchars '.' (by decide) (by rw [e]; exact List.mem_cons_self)

theorem areNames_packageParts (h : isPackageName package) :
    Path.AreNames (Text.splitAt '.' package) :=
  ⟨Text.splitAt_ne_nil '.' package, fun _ => isName_of_mem_packageParts h⟩

variable {a : AndroidConfig}

theorem packageDir_eq_joinWith (h : isPackageName a.package) :
    a.packageDir = Text.joinWith ['/'] (Text.splitAt '.' a.package) :=
  Path.foldl_join_nil fun _ => isName_of_mem_packageParts h

/-- The directory of the package has a slash where the package has a dot. -/
theorem packageDir_eq_map (h : isPackageName a.package) :
    a.packageDir = a.package.map fun c => if c = '.' then '/' else c := by
  rw [packageDir_eq_joinWith h, Text.joinWith_splitAt]

/-- The package is told by its directory. -/
theorem map_packageDir (h : isPackageName a.package) :
    (a.packageDir.map fun c => if c = '/' then '.' else c) = a.package := by
  rw [packageDir_eq_map h, List.map_map]
  refine (List.map_congr_left fun c hc => ?_).trans (List.map_id a.package)
  have hslash : c ≠ '/' := fun e => notMem_packageName h (c := '/') (by decide) (e ▸ hc)
  rw [Function.comp_apply]
  by_cases hdot : c = '.'
  · rw [if_pos hdot, if_pos rfl, hdot, id]
  · rw [if_neg hdot, if_neg hslash, id]

/-- The directory of the sources below the project root. -/
def sourceParts : List Text := ["app".toList, "src".toList, "main".toList, "java".toList]

/-- The file of the application entry. -/
def entryFile : Text := "MainApplication.kt".toList

/-- The components of the path of the application entry below the project root. -/
def entryParts (a : AndroidConfig) : List Text :=
  sourceParts ++ (Text.splitAt '.' a.package ++ [entryFile])

/-- The path of the application entry below the project root. -/
def entryPath (a : AndroidConfig) : Text :=
  "app/src/main/java/".toList ++ a.packageDir ++ "/MainApplication.kt".toList

theorem areNames_sourceParts : Path.AreNames sourceParts := by
  refine ⟨by decide, fun part hpart => ?_⟩
  simp only [sourceParts, List.mem_cons, List.not_mem_nil, or_false] at hpart
  rcases hpart with rfl | rfl | rfl | rfl <;> exact ⟨by decide, by decide, by decide, by decide⟩

theorem isName_entryFile : Path.IsName entryFile :=
  ⟨by decide, by decide, by decide, by decide⟩

theorem areNames_entryParts (h : isPackageName a.package) : Path.AreNames a.entryParts :=
  areNames_sourceParts.append ((areNames_packageParts h).append isName_entryFile.areNames)

theorem entryPath_eq_joinWith (h : isPackageName a.package) :
    a.entryPath = Text.joinWith ['/'] a.entryParts := by
  have hparts := areNames_packageParts h
  have hfile := isName_entryFile.areNames
  unfold entryPath entryParts
  rw [Text.joinWith_append areNames_sourceParts.ne_nil (hparts.append hfile).ne_nil,
    Text.joinWith_append hparts.ne_nil hfile.ne_nil, Text.joinWith_singleton,
    ← packageDir_eq_joinWith h]
  simp only [List.append_assoc]
  rfl

theorem splitAt_entryPath (h : isPackageName a.package) :
    Text.splitAt '/' a.entryPath = a.entryParts := by
  have hnames := areNames_entryParts h
  rw [entryPath_eq_joinWith h]
  exact Text.splitAt_joinWith hnames.ne_nil fun part hpart => (hnames.isName part hpart).notMem

theorem isAbsolute_entryPath (h : isPackageName a.package) :
    Path.isAbsolute a.entryPath = false := by
  rw [entryPath_eq_joinWith h]
  exact (areNames_entryParts h).isAbsolute

/-- The path of the application entry, put together in three steps, is one path below the project
root. -/
theorem mainApplicationPath_eq_join (h : isPackageName a.package) :
    a.mainApplicationPath = Path.join a.projectRoot a.entryPath := by
  have hparts := areNames_packageParts h
  have hfile := isName_entryFile.areNames
  have hsources : "app/src/main/java".toList = Text.joinWith ['/'] sourceParts := by decide
  have hentry : "MainApplication.kt".toList = Text.joinWith ['/'] [entryFile] := by decide
  unfold mainApplicationPath
  rw [Path.join_eq (isAbsolute_entryPath h), entryPath_eq_joinWith h, packageDir_eq_joinWith h,
    hsources, hentry, Path.join_eq areNames_sourceParts.isAbsolute,
    areNames_sourceParts.join hparts, (areNames_sourceParts.append hparts).join hfile,
    List.append_assoc sourceParts]
  rfl

end AndroidConfig

/-- Where the application entry of an accepted configuration lies. -/
theorem Config.ofText_mainApplicationPath {t : Text} {c : Config} {a : AndroidConfig}
    (h : Config.ofText t = .ok c) (ha : c.android = some a) :
    a.packageDir = (a.package.map fun d => if d = '.' then '/' else d) ∧
      a.mainApplicationPath = Path.join a.projectRoot a.entryPath ∧
      a.mainApplicationPath = a.projectRoot ++ Path.separator a.projectRoot ++ a.entryPath ∧
      (∀ part ∈ Text.splitAt '/' a.entryPath, part ≠ [] ∧ part ≠ ['.'] ∧ part ≠ ['.', '.']) ∧
      ∀ t' c' a', Config.ofText t' = .ok c' → c'.android = some a' →
        a'.packageDir = a.packageDir → a'.package = a.package := by
  have hname := Config.isPackageName_of_ofText h ha
  have hpath := AndroidConfig.mainApplicationPath_eq_join hname
  refine ⟨AndroidConfig.packageDir_eq_map hname, hpath, ?_, ?_, ?_⟩
  · rw [hpath, Path.join_eq (AndroidConfig.isAbsolute_entryPath hname)]
  · intro part hpart
    rw [AndroidConfig.splitAt_entryPath hname] at hpart
    have hpart := (AndroidConfig.areNames_entryParts hname).isName part hpart
    exact ⟨hpart.ne_nil, hpart.ne_dot, hpart.ne_dots⟩
  · intro t' c' a' h' ha' hdir
    have hname' := Config.isPackageName_of_ofText h' ha'
    rw [← AndroidConfig.map_packageDir hname', hdir, AndroidConfig.map_packageDir hname]

/-- A configuration with a package beyond ASCII and an absolute project root. -/
def accentedText : Text :=
  "\x7b\"android\": \x7b\"package\": \"a.b_é\", \"projectRoot\": \"/r/\"\x7d\x7d".toList

def accentedAndroid : AndroidConfig where
  deploymentKey := none
  serverUrl := none
  package := "a.b_é".toList
  projectRoot := "/r/".toList

theorem Config.ofText_mainApplicationPath_accented :
    ∃ c, Config.ofText accentedText = .ok c ∧ c.android = some accentedAndroid ∧
      accentedAndroid.mainApplicationPath =
        "/r/app/src/main/java/a/b_é/MainApplication.kt".toList := by
  have hread : (Config.ofText accentedText).toOption.bind Config.android = some accentedAndroid := by
    decide +kernel
  obtain ⟨c, hc, ha⟩ := Option.bind_eq_some_iff.mp hread
  have hok : Config.ofText accentedText = .ok c := eq_ok_of_toOption hc
  refine ⟨c, hok, ha, ?_⟩
  rw [(Config.ofText_mainApplicationPath hok ha).2.2.1]
  decide

end Graft
