import Graft.Proofs.Path
import Graft.Proofs.Run.Calls
import Graft.Proofs.Run.Store
import Graft.Proofs.Step.Sink

/-! # The choice of the targets

Which files a run patches follows from the configuration and from what was found when the build
script was looked for: `Config.Asks` says what each of them is, `Config.Selects` goes through them
in order, `Config.Looks` says which calls look for the build script, and `Config.Notes` which
diagnostic a script in Kotlin leaves.  `Config.targets_logged` proves all of this of the program. -/

namespace Graft

/-- The files that can be patched, in the order in which they are. -/
inductive Role where
  | delegate
  | propertyList
  | stringTable
  | entry
  | script
  deriving DecidableEq, Repr

namespace Role

def platform : Role → Platform
  | delegate | propertyList => .ios
  | stringTable | entry | script => .android

def ios : List Role := [delegate, propertyList]

def android : List Role := [stringTable, entry, script]

/-- All roles, those of the iOS project first. -/
def all : List Role := ios ++ android

end Role

/-- A value of a configuration that is to be written: it is there, and not empty. -/
def Given (value : Option Text) : Prop := ∃ v, value = some v ∧ v ≠ []

namespace Config

/-- The calls that look for the build script: one in Kotlin is looked for only where there is none in
Groovy. -/
inductive Looks (c : Config) : List Call → Prop
  | nothing (h : c.android = none) : Looks c []
  | groovy {a : AndroidConfig} (h : c.android = some a) : Looks c [.isFile a.buildScriptPath true]
  | kotlin {a : AndroidConfig} (h : c.android = some a) (found : Bool) :
      Looks c [.isFile a.buildScriptPath false, .isFile a.kotlinScriptPath found]

/-- The target in a role, if the configuration asks for one after the build script was looked for
with the calls `looks`. -/
inductive Asks (c : Config) (looks : List Call) : Role → Target → Prop
  | delegate {i : IosConfig} (h : c.ios = some i) :
      Asks c looks .delegate ⟨i.appDelegatePath, Delegate.pipeline c.payload⟩
  /-- The property list is patched where its place is known and there is something to write. -/
  | propertyList {i : IosConfig} {p : Text} (h : c.ios = some i) (hp : i.infoPlistPath? = some p)
      (hgiven : Given i.deploymentKey ∨ Given i.serverUrl) :
      Asks c looks .propertyList ⟨p, Resources.propertyListPipeline
        (Resources.entries c.payload i.deploymentKey i.serverUrl)⟩
  | stringTable {a : AndroidConfig} (h : c.android = some a)
      (hgiven : Given a.deploymentKey ∨ Given a.serverUrl) :
      Asks c looks .stringTable ⟨a.stringsPath, Resources.stringTablePipeline
        (Resources.entries c.payload a.deploymentKey a.serverUrl)⟩
  | entry {a : AndroidConfig} (h : c.android = some a) :
      Asks c looks .entry ⟨a.mainApplicationPath, Entry.pipeline c.payload a.package⟩
  /-- The build script in Groovy is patched, also where it is not there, unless one in Kotlin was
  found. -/
  | script {a : AndroidConfig} (h : c.android = some a)
      (hnot : .isFile a.kotlinScriptPath true ∉ looks) :
      Asks c looks .script ⟨a.buildScriptPath, Script.pipeline c.payload⟩

/-- The targets that some roles ask for, in the order of the roles. -/
inductive Selects (c : Config) (looks : List Call) : List Role → List Target → Prop
  | nil : Selects c looks [] []
  | target {role : Role} {target : Target} {roles : List Role} {targets : List Target}
      (h : c.Asks looks role target) (hrest : Selects c looks roles targets) :
      Selects c looks (role :: roles) (target :: targets)
  | skip {role : Role} {roles : List Role} {targets : List Target}
      (h : ∀ target, ¬c.Asks looks role target) (hrest : Selects c looks roles targets) :
      Selects c looks (role :: roles) targets

/-- The diagnostic on a build script in Kotlin, which is left alone. -/
def kotlinNote (a : AndroidConfig) : Diagnostic where
  platform := .android
  kind := .unsupportedFileDialect
  code := "build-script-dialect"
  message :=
    String.ofList a.kotlinScriptPath ++ " is a Kotlin script; build script changes skipped"

/-- The diagnostics on the build script: one if a script in Kotlin was found. -/
inductive Notes (c : Config) (looks : List Call) : List Diagnostic → Prop
  | kotlin {a : AndroidConfig} (h : c.android = some a)
      (hfound : .isFile a.kotlinScriptPath true ∈ looks) : Notes c looks [kotlinNote a]
  | nothing (h : ∀ a, c.android = some a → .isFile a.kotlinScriptPath true ∉ looks) : Notes c looks []

end Config

/-! ### Values -/

theorem ResourceEntry.upsert_ne_nil (e : ResourceEntry) (es : List ResourceEntry) :
    e.upsert es ≠ [] := by
  cases es with
  | nil => simp [upsert]
  | cons x es =>
      rw [upsert]
      split <;> exact List.cons_ne_nil _ _

theorem Resources.addEntry_ne_nil_iff (name : Text) (value : Option Text)
    (es : List ResourceEntry) : addEntry name value es ≠ [] ↔ es ≠ [] ∨ Given value := by
  match value with
  | none => simp [addEntry, Given]
  | some [] => simp [addEntry, Given]
  | some (c :: v) => simp [addEntry, Given, ResourceEntry.upsert_ne_nil]

/-- There is something to write if one of the values is given. -/
theorem Resources.entries_ne_nil_iff (p : Payload) (deploymentKey serverUrl : Option Text) :
    entries p deploymentKey serverUrl ≠ [] ↔ Given deploymentKey ∨ Given serverUrl := by
  rw [entries, addEntry_ne_nil_iff, addEntry_ne_nil_iff]
  simp

/-! ### Build scripts -/

namespace AndroidConfig

variable (a : AndroidConfig)

theorem isKotlin_buildScriptPath : Script.isKotlin a.buildScriptPath = false := by
  have hname : Path.IsName "build.gradle".toList := ⟨by decide, by decide, by decide, by decide⟩
  have hparts : "app/build.gradle".toList = "app".toList ++ '/' :: "build.gradle".toList := by decide
  rw [Script.isKotlin, buildScriptPath, hparts, hname.fileName?_join (by decide)]
  decide

theorem isKotlin_kotlinScriptPath : Script.isKotlin a.kotlinScriptPath = true := by
  have hname : Path.IsName "build.gradle.kts".toList := ⟨by decide, by decide, by decide, by decide⟩
  have hparts : "app/build.gradle.kts".toList = "app".toList ++ '/' :: "build.gradle.kts".toList := by
    decide
  rw [Script.isKotlin, kotlinScriptPath, hparts, hname.fileName?_join (by decide)]
  decide

theorem kotlinScriptPath_ne : a.kotlinScriptPath ≠ a.buildScriptPath := by
  intro h
  have hkotlin := a.isKotlin_kotlinScriptPath
  rw [h, isKotlin_buildScriptPath] at hkotlin
  exact nomatch hkotlin

theorem checkDialect_buildScriptPath (sink : Sink) :
    Script.checkDialect a.buildScriptPath sink = (true, sink) := by
  rw [Script.checkDialect, isKotlin_buildScriptPath]
  rfl

theorem checkDialect_kotlinScriptPath (sink : Sink) :
    Script.checkDialect a.kotlinScriptPath sink = (false, sink.push (Config.kotlinNote a)) := by
  rw [Script.checkDialect, isKotlin_kotlinScriptPath]
  rfl

end AndroidConfig

namespace Config

variable {c : Config} {looks : List Call} {role : Role} {target : Target}
  {roles roles' : List Role} {targets targets' : List Target}

/-- Looking for the build script reads nothing and writes nothing. -/
theorem Looks.exists_isFile (h : c.Looks looks) {call : Call} (hmem : call ∈ looks) :
    ∃ p answer, call = .isFile p answer := by
  cases h with
  | nothing => exact nomatch hmem
  | groovy =>
      obtain rfl := List.mem_singleton.mp hmem
      exact ⟨_, _, rfl⟩
  | kotlin =>
      rcases List.mem_cons.mp hmem with rfl | hmem
      · exact ⟨_, _, rfl⟩
      · obtain rfl := List.mem_singleton.mp hmem
        exact ⟨_, _, rfl⟩

theorem Looks.filterMap_eq_nil (h : c.Looks looks) {f : Call → Option Text}
    (hf : ∀ p answer, f (.isFile p answer) = none) : looks.filterMap f = [] := by
  refine List.filterMap_eq_nil_iff.mpr fun call hmem => ?_
  obtain ⟨p, answer, rfl⟩ := h.exists_isFile hmem
  exact hf p answer

/-! ### Roles -/

theorem Asks.platform_eq (h : c.Asks looks role target) :
    target.pipeline.platform = role.platform := by
  cases h <;> rfl

theorem Asks.additive (h : c.Asks looks role target) : target.pipeline.Additive := by
  cases h with
  | delegate => exact Delegate.pipeline_additive _
  | propertyList => exact Resources.propertyListPipeline_additive _
  | stringTable => exact Resources.stringTablePipeline_additive _
  | entry => exact Entry.pipeline_additive _ _
  | script => exact Script.pipeline_additive _

theorem Selects.append (h : c.Selects looks roles targets) (h' : c.Selects looks roles' targets') :
    c.Selects looks (roles ++ roles') (targets ++ targets') := by
  induction h with
  | nil => exact h'
  | target h _ ih => exact .target h ih
  | skip h _ ih => exact .skip h ih

theorem Selects.mem (h : c.Selects looks roles targets) (hmem : target ∈ targets) :
    ∃ role ∈ roles, c.Asks looks role target := by
  induction h with
  | nil => exact nomatch hmem
  | @target role first _ _ h _ ih =>
      rcases List.mem_cons.mp hmem with rfl | hmem
      · exact ⟨role, List.mem_cons_self, h⟩
      · obtain ⟨role, hrole, hask⟩ := ih hmem
        exact ⟨role, List.mem_cons_of_mem _ hrole, hask⟩
  | skip _ _ ih =>
      obtain ⟨role, hrole, hask⟩ := ih hmem
      exact ⟨role, List.mem_cons_of_mem _ hrole, hask⟩

/-- The targets of the first roles come first. -/
theorem Selects.exists_append (h : c.Selects looks (roles ++ roles') targets) :
    ∃ first rest, targets = first ++ rest ∧ c.Selects looks roles first ∧
      c.Selects looks roles' rest := by
  induction roles generalizing targets with
  | nil => exact ⟨[], targets, rfl, .nil, h⟩
  | cons role roles ih =>
      cases h with
      | target h hrest =>
          obtain ⟨first, rest, rfl, hfirst, hrest⟩ := ih hrest
          exact ⟨_ :: first, rest, rfl, .target h hfirst, hrest⟩
      | skip h hrest =>
          obtain ⟨first, rest, rfl, hfirst, hrest⟩ := ih hrest
          exact ⟨first, rest, rfl, .skip h hfirst, hrest⟩

/-- The targets of the iOS project come before those of the Android project. -/
theorem Selects.platforms (h : c.Selects looks Role.all targets) :
    ∃ ios android, targets = ios ++ android ∧
      (∀ target ∈ ios, target.pipeline.platform = .ios) ∧
      ∀ target ∈ android, target.pipeline.platform = .android := by
  obtain ⟨ios, android, rfl, hios, handroid⟩ := Selects.exists_append h
  refine ⟨ios, android, rfl, fun target hmem => ?_, fun target hmem => ?_⟩
  · obtain ⟨role, hrole, hask⟩ := hios.mem hmem
    have hplatform : ∀ role ∈ Role.ios, role.platform = .ios := by decide
    rw [hask.platform_eq, hplatform role hrole]
  · obtain ⟨role, hrole, hask⟩ := handroid.mem hmem
    have hplatform : ∀ role ∈ Role.android, role.platform = .android := by decide
    rw [hask.platform_eq, hplatform role hrole]

theorem selects_nil (h : ∀ role ∈ roles, ∀ target, ¬c.Asks looks role target) :
    c.Selects looks roles [] := by
  induction roles with
  | nil => exact .nil
  | cons role roles ih =>
      exact .skip (h role List.mem_cons_self) (ih fun r hr => h r (List.mem_cons_of_mem _ hr))

/-! ### The sections -/

theorem selects_ios (c : Config) (looks : List Call) :
    c.Selects looks Role.ios ((c.ios.map c.iosTargets).getD []) := by
  cases hi : c.ios with
  | none =>
      refine selects_nil fun role hrole target h => ?_
      cases h with
      | delegate h => exact nomatch hi.symm.trans h
      | propertyList h => exact nomatch hi.symm.trans h
      | stringTable => exact absurd hrole (by decide)
      | entry => exact absurd hrole (by decide)
      | script => exact absurd hrole (by decide)
  | some i =>
      refine .target (.delegate hi) ?_
      cases hp : i.infoPlistPath? with
      | none =>
          refine .skip (fun target h => ?_) .nil
          cases h with
          | propertyList h hp' =>
              cases hi.symm.trans h
              exact nomatch hp.symm.trans hp'
      | some p =>
          by_cases hes : Resources.entries c.payload i.deploymentKey i.serverUrl = []
          · simp only [hes, List.isEmpty_nil, if_true]
            refine .skip (fun target h => ?_) .nil
            cases h with
            | propertyList h _ hgiven =>
                cases hi.symm.trans h
                exact (Resources.entries_ne_nil_iff ..).mpr hgiven hes
          · simp only [List.isEmpty_iff, hes, if_false]
            exact .target (.propertyList hi hp ((Resources.entries_ne_nil_iff ..).mp hes)) .nil

theorem selects_android_nil (h : c.android = none) (looks : List Call) :
    c.Selects looks Role.android [] := by
  refine selects_nil fun role hrole target h' => ?_
  cases h' with
  | delegate => exact absurd hrole (by decide)
  | propertyList => exact absurd hrole (by decide)
  | stringTable h' => exact nomatch h.symm.trans h'
  | entry h' => exact nomatch h.symm.trans h'
  | script h' => exact nomatch h.symm.trans h'

theorem selects_androidSources {a : AndroidConfig} (h : c.android = some a) (looks : List Call) :
    c.Selects looks [.stringTable, .entry] (c.androidSources a) := by
  have hentry : c.Selects looks [.entry]
      [⟨a.mainApplicationPath, Entry.pipeline c.payload a.package⟩] := .target (.entry h) .nil
  by_cases hes : Resources.entries c.payload a.deploymentKey a.serverUrl = []
  · simp only [androidSources, hes, List.isEmpty_nil, if_true, List.nil_append]
    refine .skip (fun target h' => ?_) hentry
    cases h' with
    | stringTable h' hgiven =>
        cases h.symm.trans h'
        exact (Resources.entries_ne_nil_iff ..).mpr hgiven hes
  · simp only [androidSources, List.isEmpty_iff, hes, if_false, List.singleton_append]
    exact .target (.stringTable h ((Resources.entries_ne_nil_iff ..).mp hes)) hentry

/-- A build script that is patched. -/
theorem selects_script {a : AndroidConfig} (h : c.android = some a)
    (hnot : .isFile a.kotlinScriptPath true ∉ looks) :
    c.Selects looks [.script] [⟨a.buildScriptPath, Script.pipeline c.payload⟩] :=
  .target (.script h hnot) .nil

theorem notes_nil {a : AndroidConfig} (h : c.android = some a)
    (hnot : .isFile a.kotlinScriptPath true ∉ looks) : c.Notes looks [] := by
  refine .nothing fun a' h' hfound => ?_
  cases h.symm.trans h'
  exact hnot hfound

/-- A build script that is left alone. -/
theorem selects_script_nil {a : AndroidConfig} (h : c.android = some a)
    (hfound : .isFile a.kotlinScriptPath true ∈ looks) : c.Selects looks [.script] [] := by
  refine .skip (fun target h' => ?_) .nil
  cases h' with
  | script h' hnot =>
      cases h.symm.trans h'
      exact hnot hfound

/-! ### The program -/

variable (c) (files : Files (StateM σ)) (s : σ)

/-- The build script: the calls that look for it, what they ask for, and the diagnostic. -/
theorem androidScript_logged {a : AndroidConfig} (h : c.android = some a) (log : List Call) :
    ∃ looks notes targets s', c.androidScript a files.logged .empty (s, log) =
        ((targets, ⟨notes⟩), s', log ++ looks) ∧
      c.Looks looks ∧ c.Notes looks notes ∧ c.Selects looks [.script] targets := by
  cases hgroovy : (files.isFile a.buildScriptPath s).1 with
  | true =>
      have hnot : .isFile a.kotlinScriptPath true ∉ [Call.isFile a.buildScriptPath true] := by
        simpa using a.kotlinScriptPath_ne
      refine ⟨_, _, _, (files.isFile a.buildScriptPath s).2, ?_, .groovy h, notes_nil h hnot,
        selects_script h hnot⟩
      rw [androidScript, bind_apply, files.logged_isFile, hgroovy, if_pos rfl, pure_bind]
      simp only [Bool.false_eq_true, if_false, a.checkDialect_buildScriptPath]
      rfl
  | false =>
      cases hkotlin : (files.isFile a.kotlinScriptPath (files.isFile a.buildScriptPath s).2).1 with
      | true =>
          refine ⟨_, _, _, (files.isFile a.kotlinScriptPath (files.isFile a.buildScriptPath s).2).2, ?_,
            .kotlin h true, .kotlin h (by simp), selects_script_nil h (by simp)⟩
          rw [androidScript, bind_apply, files.logged_isFile, hgroovy, if_neg Bool.false_ne_true,
            bind_apply, files.logged_isFile, hkotlin, List.append_assoc]
          simp only [if_true, a.checkDialect_kotlinScriptPath]
          rfl
      | false =>
          have hnot : .isFile a.kotlinScriptPath true ∉
              [Call.isFile a.buildScriptPath false, .isFile a.kotlinScriptPath false] := by simp
          refine ⟨_, _, _, (files.isFile a.kotlinScriptPath (files.isFile a.buildScriptPath s).2).2, ?_,
            .kotlin h false, notes_nil h hnot, selects_script h hnot⟩
          rw [androidScript, bind_apply, files.logged_isFile, hgroovy, if_neg Bool.false_ne_true,
            bind_apply, files.logged_isFile, hkotlin, List.append_assoc]
          simp only [Bool.false_eq_true, if_false, a.checkDialect_buildScriptPath]
          rfl

theorem exists_targets_logged (log : List Call) :
    ∃ looks notes targets s', c.targets files.logged (s, log) =
        ((targets, ⟨notes⟩), s', log ++ looks) ∧
      c.Looks looks ∧ c.Notes looks notes ∧ c.Selects looks Role.all targets := by
  rw [targets]
  cases ha : c.android with
  | none =>
      have hselects := (c.selects_ios []).append (selects_android_nil ha [])
      have hnotes : c.Notes [] [] := .nothing fun a h => absurd (ha.symm.trans h) (by simp)
      rw [List.append_nil] at hselects
      refine ⟨[], [], _, s, ?_, .nothing ha, hnotes, hselects⟩
      rw [List.append_nil]
      rfl
  | some a =>
      obtain ⟨looks, notes, script, s', heq, hlooks, hnotes, hscript⟩ :=
        c.androidScript_logged files s ha log
      have handroid := (selects_androidSources ha looks).append hscript
      refine ⟨looks, notes, _, s', ?_, hlooks, hnotes, (c.selects_ios looks).append handroid⟩
      simp only
      rw [bind_apply, heq, ← List.append_assoc]
      rfl

/-- The targets of a run that starts in the state `s`. -/
def targetsIn : List Target := (c.targets files s).1.1

/-- What a run patches, and the calls that it makes to find out. -/
theorem targets_logged (log : List Call) :
    ∃ looks notes, c.targets files.logged (s, log) =
        ((c.targetsIn files s, ⟨notes⟩), (c.targets files s).2, log ++ looks) ∧
      c.Looks looks ∧ c.Notes looks notes ∧ c.Selects looks Role.all (c.targetsIn files s) := by
  obtain ⟨looks, notes, targets, s', heq, hlooks, hnotes, hselects⟩ :=
    c.exists_targets_logged files s log
  obtain ⟨hvalue, hstate⟩ := c.targets_mirrors files s log
  rw [heq] at hvalue hstate
  have htargets : targets = c.targetsIn files s := congrArg Prod.fst hvalue
  have hstate : s' = (c.targets files s).2 := hstate
  rw [← htargets, ← hstate]
  exact ⟨looks, notes, heq, hlooks, hnotes, hselects⟩

variable {c files s}

/-- What looking for files preserves is preserved by the choice of the targets. -/
theorem targets_invariant {P : σ → Prop} (h : ∀ p s, P s → P (files.isFile p s).2) (hs : P s) :
    P (c.targets files s).2 := by
  have hmid (a : AndroidConfig) : P (c.androidScript a files .empty s).2 := by
    rw [androidScript, bind_apply]
    cases (files.isFile a.buildScriptPath s).1 with
    | true => exact h _ _ hs
    | false => exact h _ _ (h _ _ hs)
  rw [targets]
  cases c.android with
  | none => exact hs
  | some a => exact hmid a

theorem additive_of_mem (h : target ∈ c.targetsIn files s) : target.pipeline.Additive := by
  obtain ⟨looks, notes, -, -, -, hselects⟩ := c.targets_logged files s []
  obtain ⟨role, -, hask⟩ := hselects.mem h
  exact hask.additive

end Config

end Graft
