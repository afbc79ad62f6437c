import Graft.Proofs.Run.Outcome
import Graft.Proofs.Run.Tree
import Mathlib.Data.List.Basic

/-! # Dry runs

A dry run leaves the store as it is and tells what a real run from the same state would report, as
long as the writes of that run succeed (`dryRun_predicts`).  Target by target, the real run takes the
course that the dry one shows (`Target.course_real`): the reports are the same but for the difference,
which is there just where the real run writes. -/

namespace Graft

open Target (Distinct)

variable {σ : Type}

/-- A report on a file without the difference. -/
def FileReport.withoutDiff (file : FileReport) : FileReport := { file with diff := none }

namespace Course

variable (course : Course) (target : Target)

/-- The course that a real run takes where a dry run takes this one and writes succeed. -/
def real : Course → Course
  | shown old => written old
  | course => course

theorem file?_real : course.real.file? target = (course.file? target).map FileReport.withoutDiff := by
  cases course <;> rfl

theorem failure?_real : course.real.failure? target = course.failure? target := by
  cases course <;> rfl

theorem notes_real : course.real.notes target = course.notes target := by
  cases course <;> rfl

variable {course target}

theorem Fits.filterMap_written?_calls (h : course.Fits target true) :
    (course.calls target).filterMap Call.written? = [] := by
  cases course with
  | unread f => rfl
  | unchanged old => rfl
  | shown old => rfl
  | unwritten old f => exact nomatch h.1
  | written old => exact nomatch h.1

/-- A real run writes the targets of which a dry run shows a difference. -/
theorem Fits.filterMap_written?_real (h : course.Fits target true) :
    (course.real.calls target).filterMap Call.written? =
      (((course.file? target).toList.filter (·.diff.isSome)).map (·.path)) := by
  cases course with
  | unread f => rfl
  | unchanged old => rfl
  | shown old => rfl
  | unwritten old f => exact nomatch h.1
  | written old => exact nomatch h.1

end Course

namespace Target

variable {target : Target} {targets : List Target} {store : Store σ} {s : σ}

/-- A real run takes the course that the dry one shows. -/
theorem course_real (hstore : store.Steady)
    (hwrite : ∀ old t, (store.files.read target.path s).1 = .ok old →
      (store.files.write target.path t s).1 = .ok ()) :
    target.course store.files false s = (target.course store.files true s).real := by
  rw [course, course]
  cases hread : (store.files.read target.path s).1 with
  | error f => rfl
  | ok old =>
      have hoverwrite :
          (store.files.overwrite target.path (target.pipeline.output old) s).1 = .ok () := by
        rw [Files.overwrite, hstore.read_state]
        exact hwrite _ _ hread
      by_cases hsame : target.pipeline.output old = old
      · simp only [if_pos hsame]
        rfl
      · simp only [if_neg hsame, hoverwrite]
        rfl

theorem after_dry (hstore : store.Steady) : target.after store.files true s = s := by
  have htakes := target.takes store.files true s
  generalize target.course store.files true s = course, target.after store.files true s = s' at htakes
  cases htakes with
  | unread => exact hstore.read_state _ _
  | unchanged => exact hstore.read_state _ _
  | shown => exact hstore.read_state _ _
  | unwritten _ _ hdry => exact nomatch hdry
  | written _ _ hdry => exact nomatch hdry

theorem afterAll_dry (hstore : store.Steady) : afterAll store.files true targets s = s := by
  induction targets with
  | nil => rfl
  | cons target targets ih => rw [afterAll, after_dry hstore, ih]

end Target

theorem Config.after_dry {store : Store σ} (hstore : store.Steady) (c : Config) (s : σ) :
    c.after store.files true s = s := by
  have hstate : (c.targets store.files s).2 = s :=
    targets_invariant (P := fun s' => s' = s) (fun p s' h => (hstore.isFile_state p s').trans h) rfl
  rw [after, Target.afterAll_dry hstore, hstate]

/-- A real run takes the courses that the dry one shows. -/
theorem Config.courses_real {store : Store σ} (hstore : store.Steady) {c : Config} {s : σ}
    (h : Distinct store s (c.targetsIn store.files s))
    (hwrite : ∀ target ∈ c.targetsIn store.files s, ∀ old t,
      (store.files.read target.path s).1 = .ok old → (store.files.write target.path t s).1 = .ok ()) :
    c.courses store.files false s =
      (c.courses store.files true s).map fun e => (e.1, e.2.real) := by
  rw [courses_eq_map hstore.toLocal h, courses_eq_map hstore.toLocal h, List.map_map]
  refine List.map_congr_left fun target hmem => ?_
  rw [Target.course_real hstore (hwrite target hmem)]
  rfl

/-- A dry run leaves the store alone and tells what a real run whose writes succeed reports and which
files it writes. -/
theorem dryRun_predicts (store : Store σ) (hstore : store.Steady) (c : Config) (s : σ)
    (h : Distinct store s (c.targetsIn store.files s))
    (hwrite : ∀ target ∈ c.targetsIn store.files s, ∀ old t,
      (store.files.read target.path s).1 = .ok old → (store.files.write target.path t s).1 = .ok ()) :
    ∃ dry dryCalls real s' calls,
      run c store.files true s = (dry, s) ∧
      run c store.files.logged true (s, []) = (dry, s, dryCalls) ∧
      run c store.files false s = (real, s') ∧
      run c store.files.logged false (s, []) = (real, s', calls) ∧
      dryCalls.filterMap Call.written? = [] ∧
      real.files = dry.files.map FileReport.withoutDiff ∧
      real.failures = dry.failures ∧
      real.diagnostics = dry.diagnostics ∧
      calls.filterMap Call.written? = (dry.files.filter (·.diff.isSome)).map (·.path) := by
  obtain ⟨looks, notes, hlooks, -, -, hreport⟩ := run_logged_eq c store.files s
  obtain ⟨dry, hfiles, hfailures, hdiagnostics, hrun, hlogged⟩ := hreport true
  obtain ⟨real, hfiles', hfailures', hdiagnostics', hrun', hlogged'⟩ := hreport false
  have hlook : looks.filterMap Call.written? = [] := hlooks.filterMap_eq_nil fun _ _ => rfl
  have hfits {e : Target × Course} (he : e ∈ c.courses store.files true s) : e.2.Fits e.1 true :=
    Target.fits_of_mem_courses _ _ he
  have hcourses := Config.courses_real hstore h hwrite
  rw [Config.after_dry hstore] at hrun hlogged
  refine ⟨dry, _, real, _, _, hrun, hlogged, hrun', hlogged', ?_, ?_, ?_, ?_, ?_⟩
  · rw [List.filterMap_append, hlook, List.nil_append, List.filterMap_flatMap]
    exact List.flatMap_eq_nil_iff.mpr fun e he => (hfits he).filterMap_written?_calls
  · rw [hfiles', hfiles, hcourses, List.filterMap_map, List.map_filterMap]
    exact List.filterMap_congr fun e _ => e.2.file?_real e.1
  · rw [hfailures', hfailures, hcourses, List.filterMap_map]
    exact List.filterMap_congr fun e _ => e.2.failure?_real e.1
  · rw [hdiagnostics', hdiagnostics, hcourses, List.flatMap_map]
    exact congrArg _ (List.flatMap_congr fun e _ => e.2.notes_real e.1)
  · rw [List.filterMap_append, hlook, List.nil_append, List.filterMap_flatMap, hcourses,
      List.flatMap_map, hfiles, List.filterMap_eq_flatMap_toList, List.filter_flatMap, List.map_flatMap]
    exact List.flatMap_congr fun e he => (hfits he).filterMap_written?_real

/-- A tree with a project in `p`: the application delegate is missing, the string table holds no text,
and the application entry and the build script can be read. -/
def sampleTree : FileTree :=
  (((FileTree.mk [] []).add (Text.splitAt '/' "p/r/app/src/main/res/values/strings.xml".toList)
      (.file [0xFF])).add (Text.splitAt '/' "p/r/app/src/main/java/p/MainApplication.kt".toList)
    (.file (Text.encode ['y']))).add (Text.splitAt '/' "p/r/app/build.gradle".toList)
      (.file (Text.encode ['x']))

/-- The store of the project. -/
def sampleStore : Store FileTree := FileTree.store.rooted "/p".toList

theorem dryRun_predicts_sampleTree :
    sampleStore.Steady ∧
      Distinct sampleStore sampleTree (sampleConfig.targetsIn sampleStore.files sampleTree) ∧
      (∀ target ∈ sampleConfig.targetsIn sampleStore.files sampleTree, ∀ old t,
        (sampleStore.files.read target.path sampleTree).1 = .ok old →
          (sampleStore.files.write target.path t sampleTree).1 = .ok ()) ∧
      ∃ dry dryCalls real s' calls,
        run sampleConfig sampleStore.files true sampleTree = (dry, sampleTree) ∧
        run sampleConfig sampleStore.files.logged true (sampleTree, []) =
          (dry, sampleTree, dryCalls) ∧
        run sampleConfig sampleStore.files false sampleTree = (real, s') ∧
        run sampleConfig sampleStore.files.logged false (sampleTree, []) = (real, s', calls) ∧
        dryCalls.filterMap Call.written? = [] ∧
        real.files = dry.files.map FileReport.withoutDiff ∧
        real.failures = dry.failures ∧
        real.diagnostics = dry.diagnostics ∧
        calls.filterMap Call.written? = (dry.files.filter (·.diff.isSome)).map (·.path) := by
  have hsteady : sampleStore.Steady := FileTree.store_steady.rooted
  have hdistinct :
      Distinct sampleStore sampleTree (sampleConfig.targetsIn sampleStore.files sampleTree) := by
    change List.Pairwise (fun target target' : Target =>
      sampleTree.fileOf (Path.join "/p".toList target.path) ≠
        sampleTree.fileOf (Path.join "/p".toList target'.path)) _
    decide
  have hnames : ∀ target ∈ sampleConfig.targetsIn sampleStore.files sampleTree,
      (Path.fileName? (Path.join "/p".toList target.path)).isSome := by decide
  have hwrite : ∀ target ∈ sampleConfig.targetsIn sampleStore.files sampleTree, ∀ old t,
      (sampleStore.files.read target.path sampleTree).1 = .ok old →
        (sampleStore.files.write target.path t sampleTree).1 = .ok () :=
    fun target hmem old t hread => FileTree.write_ok hread (hnames target hmem) t
  exact ⟨hsteady, hdistinct, hwrite,
    dryRun_predicts sampleStore hsteady sampleConfig sampleTree hdistinct hwrite⟩

end Graft
