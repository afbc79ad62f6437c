import Graft.Proofs.Run.Isolation
import Mathlib.Data.List.Basic

/-! # What becomes of the files in a run

`Outcome` says what a run that is not dry does to a store whose files are apart: which files it
patches, which calls it makes, what it reports, and what each file holds afterwards.  `run_outcome`
proves it for every configuration whose targets denote different files. -/

namespace Graft

open Target (Distinct)

variable {σ : Type}

/-- What a run does that starts in the state `s`: it makes `calls`, of which those in `looks` look for
the build script and leave `notes`, its targets take `courses`, and it ends in the state `s'` with a
report. -/
structure Outcome (store : Store σ) (c : Config) (s : σ) (report : RunReport) (s' : σ)
    (calls looks : List Call) (notes : List Diagnostic) (courses : List (Target × Course)) :
    Prop where
  looked : c.Looks looks
  /-- The targets are those that the configuration asks for, in order. -/
  selects : c.Selects looks Role.all (courses.map Prod.fst)
  /-- The targets of the iOS project come before those of the Android project. -/
  platforms : ∃ ios android, courses.map Prod.fst = ios ++ android ∧
    (∀ target ∈ ios, target.pipeline.platform = .ios) ∧
    ∀ target ∈ android, target.pipeline.platform = .android
  /-- The calls that look for the build script come first, then those for each target. -/
  calls_eq : calls = looks ++ courses.flatMap fun e => e.2.calls e.1
  fits : ∀ e ∈ courses, e.2.Fits e.1 false
  /-- Every target is read once, in order. -/
  reads : calls.filterMap Call.read? = courses.map fun e => e.1.path
  /-- Only targets that the pipeline changes are written. -/
  writes : ∀ p text answer, .write p text answer ∈ calls →
    ∃ e ∈ courses, e.1.path = p ∧ ∃ old, .read p (.ok old) ∈ e.2.calls e.1 ∧
      text = e.1.pipeline.output old ∧ text ≠ old
  files : report.files = courses.filterMap fun e => e.2.file? e.1
  failures : report.failures = courses.filterMap fun e => e.2.failure? e.1
  /-- Every target is reported either as a file or as a failure. -/
  either : ∀ e ∈ courses, (e.2.file? e.1).isSome ↔ e.2.failure? e.1 = none
  /-- A target that is reported as a file was read; it counts as changed if its pipeline makes
  something else of what was read. -/
  file : ∀ e ∈ courses, ∀ file, e.2.file? e.1 = some file →
    file.path = e.1.path ∧ file.platform = e.1.pipeline.platform ∧ file.diff = none ∧
      ∃ old, .read e.1.path (.ok old) ∈ e.2.calls e.1 ∧
        (file.changed ↔ e.1.pipeline.output old ≠ old)
  /-- A target that is reported as a failure was not read or not written. -/
  failure : ∀ e ∈ courses, ∀ failure, e.2.failure? e.1 = some failure →
    failure.path = e.1.path ∧ failure.platform = e.1.pipeline.platform ∧
      ∃ f, (.read e.1.path (.error f) ∈ e.2.calls e.1 ∨
          ∃ text, .write e.1.path text (.error f) ∈ e.2.calls e.1) ∧
        failure.missingTarget = f.isMissing ∧ failure.error = f.message
  /-- Where no write fails for want of the file, a target is reported as missing if reading it failed
  with that fault. -/
  missing : store.MissingOnRead → ∀ e ∈ courses, ∀ failure, e.2.failure? e.1 = some failure →
    (failure.missingTarget ↔ ∃ f, .read e.1.path (.error f) ∈ e.2.calls e.1 ∧ f.isMissing)
  diagnostics : report.diagnostics = notes ++ courses.flatMap fun e => e.2.notes e.1
  /-- The diagnostic on a build script in Kotlin comes first. -/
  noted : c.Notes looks notes
  /-- A target that was read, and was written unless there was no need, holds what its pipeline
  makes of it. -/
  patched : ∀ e ∈ courses, ∀ old, e.2 = .unchanged old ∨ e.2 = .written old →
    store.content (store.cell s' e.1.path) = some (e.1.pipeline.output old)
  /-- A target that was not written is left as it was. -/
  kept : ∀ e ∈ courses, (∀ old, e.2 ≠ .written old) →
    store.cell s' e.1.path = store.cell s e.1.path
  /-- Files that are no targets are left alone. -/
  others : ∀ p, (∀ e ∈ courses, store.fileOf s p ≠ store.fileOf s e.1.path) →
    store.cell s' p = store.cell s p
  /-- Where answers depend on the file alone, the same becomes of a target in a run from any other
  state that shows the same of its file. -/
  alone : store.Local → ∀ e ∈ courses, ∀ s₂, Distinct store s₂ (c.targetsIn store.files s₂) →
    e.1 ∈ c.targetsIn store.files s₂ → store.cell s₂ e.1.path = store.cell s e.1.path →
      e ∈ c.courses store.files false s₂ ∧
        store.cell (run c store.files false s₂).2 e.1.path = store.cell s' e.1.path

namespace Course

variable {course : Course} {target : Target}

theorem filterMap_read?_calls (course : Course) (target : Target) :
    (course.calls target).filterMap Call.read? = [target.path] := by
  cases course <;> rfl

/-- A write is one of the target's file, after a read of something else. -/
theorem Fits.of_write_mem {dryRun : Bool} (h : course.Fits target dryRun) {p text : Text}
    {answer : Except FileFault Unit} (hmem : .write p text answer ∈ course.calls target) :
    target.path = p ∧ ∃ old, .read p (.ok old) ∈ course.calls target ∧
      text = target.pipeline.output old ∧ text ≠ old := by
  cases course with
  | unread f => simp [calls] at hmem
  | unchanged old => simp [calls] at hmem
  | shown old => simp [calls] at hmem
  | unwritten old f =>
      obtain ⟨rfl, rfl, -⟩ : p = _ ∧ text = _ ∧ answer = _ := by simpa [calls] using hmem
      exact ⟨rfl, old, List.mem_cons_self, rfl, h.2⟩
  | written old =>
      obtain ⟨rfl, rfl, -⟩ : p = _ ∧ text = _ ∧ answer = _ := by simpa [calls] using hmem
      exact ⟨rfl, old, List.mem_cons_self, rfl, h.2⟩

theorem file?_isSome_iff (course : Course) (target : Target) :
    (course.file? target).isSome ↔ course.failure? target = none := by
  cases course <;> simp [file?, failure?, result]

/-- What is reported on a target that is processed. -/
theorem Fits.file (h : course.Fits target false) {file : FileReport}
    (hfile : course.file? target = some file) :
    file.path = target.path ∧ file.platform = target.pipeline.platform ∧ file.diff = none ∧
      ∃ old, .read target.path (.ok old) ∈ course.calls target ∧
        (file.changed ↔ target.pipeline.output old ≠ old) := by
  cases course with
  | unread f => exact nomatch hfile
  | unchanged old =>
      have hsame : target.pipeline.output old = old := h
      cases hfile
      exact ⟨rfl, rfl, rfl, old, List.mem_cons_self, by simp [hsame]⟩
  | shown old => exact nomatch h.1
  | unwritten old f => exact nomatch hfile
  | written old =>
      cases hfile
      exact ⟨rfl, rfl, rfl, old, List.mem_cons_self, by simp [h.2]⟩

/-- What is reported on a target that is not processed. -/
theorem failure?_eq_some {failure : FileFailure} (h : course.failure? target = some failure) :
    failure.path = target.path ∧ failure.platform = target.pipeline.platform ∧
      ∃ f, (.read target.path (.error f) ∈ course.calls target ∨
          ∃ text, .write target.path text (.error f) ∈ course.calls target) ∧
        failure.missingTarget = f.isMissing ∧ failure.error = f.message := by
  cases course with
  | unread f =>
      cases h
      exact ⟨rfl, rfl, f, .inl List.mem_cons_self, rfl, rfl⟩
  | unchanged old => exact nomatch h
  | shown old => exact nomatch h
  | unwritten old f =>
      cases h
      exact ⟨rfl, rfl, f, .inr ⟨_, List.mem_cons_of_mem _ List.mem_cons_self⟩, rfl, rfl⟩
  | written old => exact nomatch h

end Course

/-- A run that is not dry. -/
theorem run_outcome (store : Store σ) (c : Config) (s : σ)
    (h : Distinct store s (c.targetsIn store.files s)) :
    ∃ report s' calls looks notes, run c store.files false s = (report, s') ∧
      run c store.files.logged false (s, []) = (report, s', calls) ∧
      Outcome store c s report s' calls looks notes (c.courses store.files false s) := by
  obtain ⟨looks, notes, hlooks, hnotes, hselects, hreport⟩ := run_logged_eq c store.files s
  obtain ⟨report, hfiles, hfailures, hdiagnostics, hrun, hlogged⟩ := hreport false
  refine ⟨report, _, _, looks, notes, hrun, hlogged, ?_⟩
  have hfst := c.map_fst_courses store.files false s
  have htakes {e : Target × Course} (he : e ∈ c.courses store.files false s) :
      ∃ s₁, e.1.Takes store.files false s₁ e.2 (e.1.after store.files false s₁) ∧
        store.cell s₁ e.1.path = store.cell s e.1.path ∧
        store.cell (c.after store.files false s) e.1.path =
          store.cell (e.1.after store.files false s₁) e.1.path := by
    obtain ⟨s₁, hcourse, hcell, hafter⟩ := Config.exists_turn h he
    refine ⟨s₁, ?_, hcell, hafter⟩
    rw [hcourse]
    exact e.1.takes store.files false s₁
  have hfits {e : Target × Course} (he : e ∈ c.courses store.files false s) :
      e.2.Fits e.1 false := Target.fits_of_mem_courses _ _ he
  exact {
    looked := hlooks
    selects := by rwa [hfst]
    platforms := by
      rw [hfst]
      exact hselects.platforms
    calls_eq := rfl
    fits := fun e he => hfits he
    reads := by
      have hlook : looks.filterMap Call.read? = [] := hlooks.filterMap_eq_nil fun _ _ => rfl
      rw [List.filterMap_append, hlook, List.nil_append, List.filterMap_flatMap, List.map_eq_flatMap]
      exact List.flatMap_congr fun e _ => e.2.filterMap_read?_calls e.1
    writes := by
      intro p text answer hcall
      rcases List.mem_append.mp hcall with hcall | hcall
      · obtain ⟨q, found, heq⟩ := hlooks.exists_isFile hcall
        exact nomatch heq
      · obtain ⟨e, he, hcall⟩ := List.mem_flatMap.mp hcall
        exact ⟨e, he, (hfits he).of_write_mem hcall⟩
    files := hfiles
    failures := hfailures
    either := fun e _ => e.2.file?_isSome_iff e.1
    file := fun e he _ hfile => (hfits he).file hfile
    failure := fun e _ _ hfail => Course.failure?_eq_some hfail
    missing := fun hstore e he failure hfail => by
      obtain ⟨s₁, htakes, -⟩ := htakes he
      exact htakes.missing_iff hstore hfail
    diagnostics := hdiagnostics
    noted := hnotes
    patched := fun e he old hdone => by
      obtain ⟨s₁, htakes, -, hafter⟩ := htakes he
      rw [hafter]
      exact htakes.patched hdone
    kept := fun e he hnot => by
      obtain ⟨s₁, htakes, hcell, hafter⟩ := htakes he
      rw [hafter, htakes.kept hnot, hcell]
    others := fun p hp => Config.cell_after_other fun target htarget => by
      rw [← hfst] at htarget
      obtain ⟨e, he, rfl⟩ := List.mem_map.mp htarget
      exact hp e he
    alone := fun hstore e he s₂ h₂ hmem₂ hcell => by
      rw [run_state]
      exact Config.turn_local hstore h he h₂ hmem₂ hcell }

/-- A configuration with a section for each platform. -/
def sampleConfig : Config where
  ios := some {
    deploymentKey := none
    serverUrl := none
    projectName := none
    appDelegate := some ['d']
    infoPlist := none }
  android := some {
    deploymentKey := some ['k']
    serverUrl := none
    package := ['p']
    projectRoot := ['r'] }
  payload := .standard

/-- A store in which the string table cannot be read, the build script cannot be written and the
application delegate is missing. -/
def sampleMemory : Memory where
  files := [("r/app/build.gradle".toList, ['x']),
    ("r/app/src/main/java/p/MainApplication.kt".toList, ['y'])]
  unreadable := ["r/app/src/main/res/values/strings.xml".toList]
  readonly := ["r/app/build.gradle".toList]
  writes := 0

theorem run_outcome_sample :
    Memory.store.Steady ∧ Memory.store.MissingOnRead ∧
      Distinct Memory.store sampleMemory (sampleConfig.targetsIn Memory.access sampleMemory) ∧
      ∃ report s' calls looks notes,
        run sampleConfig Memory.access false sampleMemory = (report, s') ∧
        run sampleConfig Memory.access.logged false (sampleMemory, []) = (report, s', calls) ∧
        Outcome Memory.store sampleConfig sampleMemory report s' calls looks notes
          (sampleConfig.courses Memory.access false sampleMemory) := by
  have hdistinct :
      Distinct Memory.store sampleMemory (sampleConfig.targetsIn Memory.access sampleMemory) := by
    change List.Pairwise (fun target target' : Target => target.path ≠ target'.path) _
    decide
  exact ⟨Memory.store_steady, Memory.store_missingOnRead, hdistinct,
    run_outcome Memory.store sampleConfig sampleMemory hdistinct⟩

end Graft
