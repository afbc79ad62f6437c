import Graft.Proofs.Run.Targets

/-! # What becomes of a target

A target takes one of five courses (`Course`).  The course tells the calls that are made for the
target, what is reported on it, and its diagnostics; `Target.patch_logged` proves this of one
target, `Target.patchAll_logged` of all of them, by induction over the targets, and
`run_logged_eq` sums up a run.  Nothing is asked of the files here. -/

namespace Graft

/-- What becomes of a target. -/
inductive Course where
  /-- It could not be read. -/
  | unread (fault : FileFault)
  /-- Its pipeline leaves it as it was read. -/
  | unchanged (old : Text)
  /-- A dry run shows what its pipeline makes of it. -/
  | shown (old : Text)
  /-- What its pipeline makes of it could not be written. -/
  | unwritten (old : Text) (fault : FileFault)
  /-- What its pipeline makes of it was written. -/
  | written (old : Text)
  deriving DecidableEq, Repr

namespace Course

variable (target : Target)

/-- Whether a course can be that of a target in a dry run or in a real one. -/
def Fits (dryRun : Bool) : Course → Prop
  | unread _ => True
  | unchanged old => target.pipeline.output old = old
  | shown old => dryRun = true ∧ target.pipeline.output old ≠ old
  | unwritten old _ | written old => dryRun = false ∧ target.pipeline.output old ≠ old

/-- The calls that are made for a target. -/
def calls : Course → List Call
  | unread f => [.read target.path (.error f)]
  | unchanged old | shown old => [.read target.path (.ok old)]
  | unwritten old f =>
    [.read target.path (.ok old), .write target.path (target.pipeline.output old) (.error f)]
  | written old =>
    [.read target.path (.ok old), .write target.path (target.pipeline.output old) (.ok ())]

/-- The report on a target, or the fault that keeps it from being processed. -/
def result : Course → Except FileFault FileReport
  | unread f | unwritten _ f => .error f
  | unchanged _ => .ok ⟨target.path, target.pipeline.platform, false, none⟩
  | shown old => .ok ⟨target.path, target.pipeline.platform, true,
      some (Diff.unified (Path.display target.path) old (target.pipeline.output old))⟩
  | written _ => .ok ⟨target.path, target.pipeline.platform, true, none⟩

def file? (course : Course) : Option FileReport :=
  match course.result target with
  | .error _ => none
  | .ok file => some file

def failure? (course : Course) : Option FileFailure :=
  match course.result target with
  | .error f => some ⟨target.path, target.pipeline.platform, f.isMissing, f.message⟩
  | .ok _ => none

/-- The diagnostics of the pipeline on what was read. -/
def notes : Course → List Diagnostic
  | unread _ => []
  | unchanged old | shown old | unwritten old _ | written old => target.pipeline.notes old

end Course

variable {σ : Type}

namespace Target

variable (target : Target) (files : Files (StateM σ)) (dryRun : Bool) (s : σ)

/-- What becomes of a target that is processed in the state `s`. -/
def course : Course :=
  match (files.read target.path s).1 with
  | .error f => .unread f
  | .ok old =>
    if target.pipeline.output old = old then .unchanged old
    else if dryRun then .shown old
    else
      match (files.overwrite target.path (target.pipeline.output old) s).1 with
      | .error f => .unwritten old f
      | .ok () => .written old

/-- The state after a target has been processed in the state `s`. -/
def after : σ :=
  match target.course files dryRun s with
  | .unread _ | .unchanged _ | .shown _ => (files.read target.path s).2
  | .unwritten old _ | .written old =>
    (files.overwrite target.path (target.pipeline.output old) s).2

/-- What becomes of targets that are processed one after the other. -/
def courses : List Target → σ → List (Target × Course)
  | [], _ => []
  | target :: targets, s =>
    (target, target.course files dryRun s) :: courses targets (target.after files dryRun s)

/-- The state after targets have been processed one after the other. -/
def afterAll : List Target → σ → σ
  | [], s => s
  | target :: targets, s => afterAll targets (target.after files dryRun s)

theorem map_fst_courses (targets : List Target) (s : σ) :
    (courses files dryRun targets s).map Prod.fst = targets := by
  induction targets generalizing s with
  | nil => rfl
  | cons target targets ih => rw [courses, List.map_cons, ih]

/-! ### One target -/

/-- The courses that a target can take, with what leads to each and the state that is left. -/
inductive Takes : Course → σ → Prop
  | unread {f : FileFault} (hread : (files.read target.path s).1 = .error f) :
      Takes (.unread f) (files.read target.path s).2
  | unchanged {old : Text} (hread : (files.read target.path s).1 = .ok old)
      (hsame : target.pipeline.output old = old) :
      Takes (.unchanged old) (files.read target.path s).2
  | shown {old : Text} (hread : (files.read target.path s).1 = .ok old)
      (hne : target.pipeline.output old ≠ old) (hdry : dryRun = true) :
      Takes (.shown old) (files.read target.path s).2
  | unwritten {old : Text} {f : FileFault} (hread : (files.read target.path s).1 = .ok old)
      (hne : target.pipeline.output old ≠ old) (hdry : dryRun = false)
      (hwrite : (files.overwrite target.path (target.pipeline.output old) s).1 = .error f) :
      Takes (.unwritten old f) (files.overwrite target.path (target.pipeline.output old) s).2
  | written {old : Text} (hread : (files.read target.path s).1 = .ok old)
      (hne : target.pipeline.output old ≠ old) (hdry : dryRun = false)
      (hwrite : (files.overwrite target.path (target.pipeline.output old) s).1 = .ok ()) :
      Takes (.written old) (files.overwrite target.path (target.pipeline.output old) s).2

theorem takes : target.Takes files dryRun s (target.course files dryRun s)
    (target.after files dryRun s) := by
  unfold after course
  cases hread : (files.read target.path s).1 with
  | error f => exact .unread hread
  | ok old =>
      by_cases hsame : target.pipeline.output old = old
      · simp only [hsame, if_true]
        exact .unchanged hread hsame
      · simp only [hsame, if_false]
        cases hdry : dryRun with
        | true => exact .shown hread hsame rfl
        | false =>
            cases hwrite : (files.overwrite target.path (target.pipeline.output old) s).1 with
            | error f => exact .unwritten hread hsame rfl hwrite
            | ok u => exact .written hread hsame rfl hwrite

theorem Takes.fits {course : Course} {s' : σ} (h : target.Takes files dryRun s course s') :
    course.Fits target dryRun := by
  cases h with
  | unread => trivial
  | unchanged _ hsame => exact hsame
  | shown _ hne hdry => exact ⟨hdry, hne⟩
  | unwritten _ hne hdry => exact ⟨hdry, hne⟩
  | written _ hne hdry => exact ⟨hdry, hne⟩

variable {target}

theorem report_of_same {old : Text} (h : target.pipeline.output old = old) :
    target.report dryRun old (target.pipeline.output old) =
      ⟨target.path, target.pipeline.platform, false, none⟩ := by
  simp [report, h]

theorem report_of_ne {old : Text} (h : target.pipeline.output old ≠ old) :
    target.report dryRun old (target.pipeline.output old) =
      ⟨target.path, target.pipeline.platform, true, if dryRun then
        some (Diff.unified (Path.display target.path) old (target.pipeline.output old)) else none⟩ := by
  simp [report, h]

variable (target)

/-- One target: its report, its diagnostics after the earlier ones, and its calls after the earlier
ones. -/
theorem patch_logged (h : target.pipeline.Additive) (sink : Sink) (log : List Call) :
    target.patch files.logged dryRun sink (s, log) =
      (((target.course files dryRun s).result target,
          ⟨sink.entries ++ (target.course files dryRun s).notes target⟩),
        target.after files dryRun s, log ++ (target.course files dryRun s).calls target) := by
  have hread {answer : Except FileFault Text} (hr : (files.read target.path s).1 = answer) :
      files.logged.read target.path (s, log) =
        (answer, (files.read target.path s).2, log ++ [.read target.path answer]) := by
    rw [← hr]
    rfl
  have hwrite {answer : Except FileFault Unit} {t : Text} (log : List Call)
      (hw : (files.overwrite target.path t s).1 = answer) :
      files.logged.write target.path t ((files.read target.path s).2, log) =
        (answer, (files.overwrite target.path t s).2, log ++ [.write target.path t answer]) := by
    rw [← hw]
    rfl
  have htakes := target.takes files dryRun s
  generalize target.course files dryRun s = course, target.after files dryRun s = s' at htakes
  rw [patch, bind_apply]
  cases htakes with
  | unread hr =>
      rw [hread hr, Course.notes, List.append_nil]
      rfl
  | unchanged hr hsame =>
      rw [hread hr]
      simp only [Pipeline.run_eq h, report_of_same dryRun hsame]
      rfl
  | shown hr hne hdry =>
      rw [hread hr, hdry]
      simp only [Pipeline.run_eq h, report_of_ne _ hne]
      rfl
  | unwritten hr hne hdry hw =>
      rw [hread hr, hdry]
      simp only [Pipeline.run_eq h, report_of_ne _ hne, Bool.not_false, Bool.and_self, if_true]
      rw [bind_apply, hwrite _ hw, List.append_assoc]
      rfl
  | written hr hne hdry hw =>
      rw [hread hr, hdry]
      simp only [Pipeline.run_eq h, report_of_ne _ hne, Bool.not_false, Bool.and_self, if_true]
      rw [bind_apply, hwrite _ hw, List.append_assoc]
      rfl

/-! ### All targets -/

theorem fits_of_mem_courses {targets : List Target} {s : σ} {e : Target × Course}
    (h : e ∈ courses files dryRun targets s) : e.2.Fits e.1 dryRun := by
  induction targets generalizing s with
  | nil => exact nomatch h
  | cons target targets ih =>
      rcases List.mem_cons.mp h with rfl | h
      · exact (target.takes files dryRun s).fits
      · exact ih h

/-- All targets: what is reported on each, with the diagnostics and the calls in order. -/
theorem patchAll_logged {targets : List Target} (h : ∀ target ∈ targets, target.pipeline.Additive)
    (sink : Sink) (log : List Call) :
    patchAll files.logged dryRun targets sink (s, log) =
      (⟨(courses files dryRun targets s).filterMap fun e => e.2.file? e.1,
        (courses files dryRun targets s).filterMap fun e => e.2.failure? e.1,
        sink.entries ++ (courses files dryRun targets s).flatMap fun e => e.2.notes e.1⟩,
      afterAll files dryRun targets s,
      log ++ (courses files dryRun targets s).flatMap fun e => e.2.calls e.1) := by
  induction targets generalizing s sink log with
  | nil =>
      simp only [courses, List.filterMap_nil, List.flatMap_nil, List.append_nil]
      rfl
  | cons target targets ih =>
      obtain ⟨hfirst, hrest⟩ := List.forall_mem_cons.mp h
      rw [patchAll, bind_apply, target.patch_logged files dryRun s hfirst]
      simp only
      rw [bind_apply, ih _ hrest]
      simp only [courses, afterAll, List.filterMap_cons, List.flatMap_cons, List.append_assoc,
        Course.file?, Course.failure?]
      cases (target.course files dryRun s).result target with
      | error f => rfl
      | ok file => rfl

end Target

/-! ### A run -/

namespace Config

variable (c : Config) (files : Files (StateM σ)) (dryRun : Bool) (s : σ)

/-- What becomes of the targets of a run that starts in the state `s`. -/
def courses : List (Target × Course) :=
  Target.courses files dryRun (c.targetsIn files s) (c.targets files s).2

/-- The state in which a run ends that starts in the state `s`. -/
def after : σ := Target.afterAll files dryRun (c.targetsIn files s) (c.targets files s).2

end Config

/-- A run: the calls that look for the build script and the diagnostic on it, then the report, the
state that is left and the calls of a run of either kind. -/
theorem run_logged_eq (c : Config) (files : Files (StateM σ)) (s : σ) :
    ∃ looks notes, c.Looks looks ∧ c.Notes looks notes ∧
      c.Selects looks Role.all (c.targetsIn files s) ∧
      ∀ dryRun, ∃ report,
        report.files = ((c.courses files dryRun s).filterMap fun e => e.2.file? e.1) ∧
        report.failures = ((c.courses files dryRun s).filterMap fun e => e.2.failure? e.1) ∧
        report.diagnostics = (notes ++ (c.courses files dryRun s).flatMap fun e => e.2.notes e.1) ∧
        run c files dryRun s = (report, c.after files dryRun s) ∧
        run c files.logged dryRun (s, []) = (report, c.after files dryRun s,
          looks ++ (c.courses files dryRun s).flatMap fun e => e.2.calls e.1) := by
  obtain ⟨looks, notes, htargets, hlooks, hnotes, hselects⟩ := c.targets_logged files s []
  refine ⟨looks, notes, hlooks, hnotes, hselects, fun dryRun => ?_⟩
  have hadd : ∀ target ∈ c.targetsIn files s, target.pipeline.Additive :=
    fun _ => Config.additive_of_mem
  have hlogged := Target.patchAll_logged files dryRun (c.targets files s).2 hadd ⟨notes⟩ ([] ++ looks)
  have hrun : run c files.logged dryRun (s, []) = Target.patchAll files.logged dryRun
      (c.targetsIn files s) ⟨notes⟩ ((c.targets files s).2, [] ++ looks) := by
    rw [run, bind_apply, htargets]
  obtain ⟨hreport, hstate⟩ := run_logged files dryRun c s []
  rw [hrun, hlogged] at hreport hstate
  exact ⟨_, rfl, rfl, rfl, Prod.ext hreport.symm hstate.symm, hrun.trans hlogged⟩

theorem run_state (c : Config) (files : Files (StateM σ)) (dryRun : Bool) (s : σ) :
    (run c files dryRun s).2 = c.after files dryRun s := by
  obtain ⟨looks, notes, -, -, -, hreport⟩ := run_logged_eq c files s
  obtain ⟨report, -, -, -, hrun, -⟩ := hreport dryRun
  rw [hrun]

end Graft
