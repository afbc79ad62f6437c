import Graft.Proofs.Run.Course

/-! # Targets are isolated from each other

In a store a target changes no file but its own, and that only where it is written
(`Target.Takes.cell_other`, `Target.Takes.kept`).  So where the targets of a run denote different
files, each of them is processed in a state that shows its file as the first state does, and what
comes after leaves its file alone (`Target.exists_turn`, by induction over the targets).  In a store
whose answers depend on the file alone, what becomes of a target is what becomes of it by itself
(`Target.courses_eq_map`). -/

namespace Graft

variable {σ : Type}

namespace Target

variable {store : Store σ} {dryRun : Bool} {s s' : σ} {target : Target} {targets : List Target}
  {course : Course}

/-! ### One target -/

/-- The state is left by a read, or by a write of what could be read. -/
theorem Takes.state_cases {files : Files (StateM σ)} (h : target.Takes files dryRun s course s') :
    s' = (files.read target.path s).2 ∨ ∃ old t, (files.read target.path s).1 = .ok old ∧
      s' = (files.overwrite target.path t s).2 := by
  cases h with
  | unread => exact .inl rfl
  | unchanged => exact .inl rfl
  | shown => exact .inl rfl
  | unwritten hread => exact .inr ⟨_, _, hread, rfl⟩
  | written hread => exact .inr ⟨_, _, hread, rfl⟩

theorem Takes.apart (h : target.Takes store.files dryRun s course s') {p q : Text}
    (hne : store.fileOf s p ≠ store.fileOf s q) : store.fileOf s' p ≠ store.fileOf s' q := by
  obtain rfl | ⟨old, t, hread, rfl⟩ := h.state_cases
  · rwa [store.read_fileOf]
  · exact store.write_apart _ _ _ hread _ _ _ hne

/-- A target leaves the files of others as they are. -/
theorem Takes.cell_other (h : target.Takes store.files dryRun s course s') {p : Text}
    (hne : store.fileOf s p ≠ store.fileOf s target.path) : store.cell s' p = store.cell s p := by
  obtain rfl | ⟨old, t, hread, rfl⟩ := h.state_cases
  · rw [store.read_cell]
  · exact store.write_other _ _ _ hread _ _ hne

/-- A target that is not written leaves its own file as it is. -/
theorem Takes.kept (h : target.Takes store.files dryRun s course s')
    (hnot : ∀ old, course ≠ .written old) :
    store.cell s' target.path = store.cell s target.path := by
  cases h with
  | unread => rw [store.read_cell]
  | unchanged => rw [store.read_cell]
  | shown => rw [store.read_cell]
  | unwritten hread _ _ hwrite => exact store.write_failed _ _ _ hread _ _ hwrite
  | written => exact absurd rfl (hnot _)

/-- A target that was read, and was written unless there was no need, holds what its pipeline makes
of it. -/
theorem Takes.patched (h : target.Takes store.files dryRun s course s') {old : Text}
    (hdone : course = .unchanged old ∨ course = .written old) :
    store.content (store.cell s' target.path) = some (target.pipeline.output old) := by
  cases h with
  | unread => simp at hdone
  | unchanged hread hsame =>
      obtain rfl : _ = old := by simpa using hdone
      rw [store.read_cell, hsame]
      exact store.read_content _ _ _ hread
  | shown => simp at hdone
  | unwritten => simp at hdone
  | written hread _ _ hwrite =>
      obtain rfl : _ = old := by simpa using hdone
      exact store.write_content _ _ _ hread _ hwrite

/-- A failure says that the file is missing if the read failed for that, provided that no write
does. -/
theorem Takes.missing_iff (h : target.Takes store.files dryRun s course s')
    (hstore : store.MissingOnRead) {failure : FileFailure}
    (hfail : course.failure? target = some failure) : failure.missingTarget ↔
      ∃ f, .read target.path (.error f) ∈ course.calls target ∧ f.isMissing := by
  cases h with
  | unread =>
      cases hfail
      simp [Course.calls]
  | unchanged => exact nomatch hfail
  | shown => exact nomatch hfail
  | unwritten hread _ _ hwrite =>
      cases hfail
      simp [Course.calls, hstore _ _ _ hread _ _ hwrite]
  | written => exact nomatch hfail

/-! ### All targets -/

/-- The targets denote different files. -/
def Distinct (store : Store σ) (s : σ) (targets : List Target) : Prop :=
  targets.Pairwise fun target target' => store.fileOf s target.path ≠ store.fileOf s target'.path

theorem Distinct.after (h : Distinct store s (target :: targets)) :
    Distinct store (target.after store.files dryRun s) targets :=
  (List.pairwise_cons.mp h).2.imp (target.takes store.files dryRun s).apart

theorem Distinct.ne (h : Distinct store s (target :: targets)) {target' : Target}
    (hmem : target' ∈ targets) : store.fileOf s target'.path ≠ store.fileOf s target.path :=
  ((List.pairwise_cons.mp h).1 target' hmem).symm

theorem mem_of_mem_courses {files : Files (StateM σ)}
    (h : (target, course) ∈ courses files dryRun targets s) : target ∈ targets := by
  rw [← map_fst_courses files dryRun targets s]
  exact List.mem_map_of_mem h

theorem cell_afterAll_other {p : Text}
    (h : ∀ target ∈ targets, store.fileOf s p ≠ store.fileOf s target.path) :
    store.cell (afterAll store.files dryRun targets s) p = store.cell s p := by
  induction targets generalizing s with
  | nil => rfl
  | cons target targets ih =>
      have htakes := target.takes store.files dryRun s
      obtain ⟨hfirst, hrest⟩ := List.forall_mem_cons.mp h
      rw [afterAll, ih fun t ht => htakes.apart (hrest t ht)]
      exact htakes.cell_other hfirst

/-- Each target has its turn in a state that shows its file as the first state does, and its file
stays as it is then left. -/
theorem exists_turn (h : Distinct store s targets)
    (hmem : (target, course) ∈ courses store.files dryRun targets s) :
    ∃ s₁, course = target.course store.files dryRun s₁ ∧
      store.cell s₁ target.path = store.cell s target.path ∧
      store.cell (afterAll store.files dryRun targets s) target.path =
        store.cell (target.after store.files dryRun s₁) target.path := by
  induction targets generalizing s with
  | nil => exact nomatch hmem
  | cons first targets ih =>
      have htakes := first.takes store.files dryRun s
      rw [courses] at hmem
      rw [afterAll]
      rcases List.mem_cons.mp hmem with heq | hmem
      · cases heq
        exact ⟨s, rfl, rfl, cell_afterAll_other fun t ht => htakes.apart (h.ne ht).symm⟩
      · obtain ⟨s₁, hcourse, hcell, hafter⟩ := ih h.after hmem
        exact ⟨s₁, hcourse, hcell.trans (htakes.cell_other (h.ne (mem_of_mem_courses hmem))), hafter⟩

/-! ### Stores whose answers depend on the file alone -/

theorem Takes.read_of_unwritten {files : Files (StateM σ)} {old : Text} {f : FileFault}
    (h : target.Takes files dryRun s (.unwritten old f) s') :
    (files.read target.path s).1 = .ok old := by
  cases h
  assumption

theorem Takes.read_of_written {files : Files (StateM σ)} {old : Text}
    (h : target.Takes files dryRun s (.written old) s') :
    (files.read target.path s).1 = .ok old := by
  cases h
  assumption

theorem course_local (hstore : store.Local) (dryRun : Bool)
    (h : store.cell s target.path = store.cell s' target.path) :
    target.course store.files dryRun s = target.course store.files dryRun s' := by
  rw [course, course, ← hstore.read _ _ _ h]
  cases hread : (store.files.read target.path s).1 with
  | error f => rfl
  | ok old =>
      simp only
      rw [(hstore.write _ _ _ _ hread h _).1]

theorem cell_after_local (hstore : store.Local) (dryRun : Bool)
    (h : store.cell s target.path = store.cell s' target.path) :
    store.cell (target.after store.files dryRun s) target.path =
      store.cell (target.after store.files dryRun s') target.path := by
  have htakes := target.takes store.files dryRun s
  rw [after, after, ← course_local hstore dryRun h]
  cases hcourse : target.course store.files dryRun s with
  | unread f => rwa [store.read_cell, store.read_cell]
  | unchanged old => rwa [store.read_cell, store.read_cell]
  | shown old => rwa [store.read_cell, store.read_cell]
  | unwritten old f =>
      rw [hcourse] at htakes
      exact (hstore.write _ _ _ _ htakes.read_of_unwritten h _).2
  | written old =>
      rw [hcourse] at htakes
      exact (hstore.write _ _ _ _ htakes.read_of_written h _).2

/-- What becomes of a target is what becomes of it by itself. -/
theorem courses_eq_map (hstore : store.Local) (h : Distinct store s targets) :
    courses store.files dryRun targets s =
      targets.map fun target => (target, target.course store.files dryRun s) := by
  induction targets generalizing s with
  | nil => rfl
  | cons target targets ih =>
      have htakes := target.takes store.files dryRun s
      rw [courses, ih h.after, List.map_cons]
      congr 1
      refine List.map_congr_left fun t ht => ?_
      rw [course_local hstore dryRun (htakes.cell_other (h.ne ht))]

end Target

/-! ### A run -/

namespace Config

variable {store : Store σ} {c : Config} {dryRun : Bool} {s : σ} {target : Target} {course : Course}

theorem fileOf_targets (store : Store σ) (c : Config) (s : σ) :
    store.fileOf (c.targets store.files s).2 = store.fileOf s :=
  targets_invariant (P := fun s' => store.fileOf s' = store.fileOf s)
    (fun _ _ h => (store.isFile_fileOf _ _).trans h) rfl

theorem cell_targets (store : Store σ) (c : Config) (s : σ) :
    store.cell (c.targets store.files s).2 = store.cell s :=
  targets_invariant (P := fun s' => store.cell s' = store.cell s)
    (fun _ _ h => (store.isFile_cell _ _).trans h) rfl

theorem distinct_targets {targets : List Target} (h : Target.Distinct store s targets) :
    Target.Distinct store (c.targets store.files s).2 targets := by
  rwa [Target.Distinct, fileOf_targets]

/-- The targets of a run, each with what becomes of it. -/
theorem map_fst_courses (c : Config) (files : Files (StateM σ)) (dryRun : Bool) (s : σ) :
    (c.courses files dryRun s).map Prod.fst = c.targetsIn files s :=
  Target.map_fst_courses files dryRun _ _

theorem cell_after_other {p : Text}
    (h : ∀ target ∈ c.targetsIn store.files s, store.fileOf s p ≠ store.fileOf s target.path) :
    store.cell (c.after store.files dryRun s) p = store.cell s p := by
  rw [after, Target.cell_afterAll_other, cell_targets]
  rwa [fileOf_targets]

/-- In a run each target has its turn in a state that shows its file as the first state does, and its
file stays as it is then left. -/
theorem exists_turn (h : Target.Distinct store s (c.targetsIn store.files s))
    (hmem : (target, course) ∈ c.courses store.files dryRun s) :
    ∃ s₁, course = target.course store.files dryRun s₁ ∧
      store.cell s₁ target.path = store.cell s target.path ∧
      store.cell (c.after store.files dryRun s) target.path =
        store.cell (target.after store.files dryRun s₁) target.path := by
  obtain ⟨s₁, hcourse, hcell, hafter⟩ := Target.exists_turn (distinct_targets h) hmem
  rw [cell_targets] at hcell
  exact ⟨s₁, hcourse, hcell, hafter⟩

theorem courses_eq_map (hstore : store.Local)
    (h : Target.Distinct store s (c.targetsIn store.files s)) :
    c.courses store.files dryRun s = (c.targetsIn store.files s).map fun target =>
      (target, target.course store.files dryRun s) := by
  rw [courses, Target.courses_eq_map hstore (distinct_targets h)]
  refine List.map_congr_left fun target _ => ?_
  rw [Target.course_local hstore dryRun (congrFun (cell_targets store c s) _)]

/-- The same becomes of a target in runs from two states that show the same of its file. -/
theorem turn_local (hstore : store.Local) (h : Target.Distinct store s (c.targetsIn store.files s))
    (hmem : (target, course) ∈ c.courses store.files dryRun s) {s₂ : σ}
    (h₂ : Target.Distinct store s₂ (c.targetsIn store.files s₂))
    (hmem₂ : target ∈ c.targetsIn store.files s₂)
    (hcell : store.cell s₂ target.path = store.cell s target.path) :
    (target, course) ∈ c.courses store.files dryRun s₂ ∧
      store.cell (c.after store.files dryRun s₂) target.path =
        store.cell (c.after store.files dryRun s) target.path := by
  obtain ⟨s₁, rfl, hstart, hend⟩ := exists_turn h hmem
  have hsame := hcell.trans hstart.symm
  have hcourse : (target, target.course store.files dryRun s₁) ∈ c.courses store.files dryRun s₂ := by
    rw [courses_eq_map hstore h₂, ← Target.course_local hstore dryRun hsame]
    exact List.mem_map_of_mem hmem₂
  obtain ⟨s₁', -, hstart', hend'⟩ := exists_turn h₂ hcourse
  refine ⟨hcourse, ?_⟩
  rw [hend', hend]
  exact Target.cell_after_local hstore dryRun (hstart'.trans hsame)

end Config

end Graft
