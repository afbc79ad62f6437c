import Graft.Run

/-! # The calls of a run

What a run asks of the files, in order.  `Files.logged` keeps a list of the calls beside the state
of the files; the list does not change what a run does (`run_logged`). -/

namespace Graft

/-- A call to the files, with its answer. -/
inductive Call where
  | isFile (path : Text) (answer : Bool)
  | read (path : Text) (answer : Except FileFault Text)
  | write (path text : Text) (answer : Except FileFault Unit)

namespace Call

/-- The path that a call reads. -/
def read? : Call → Option Text
  | read p _ => some p
  | _ => none

/-- The path that a call writes. -/
def written? : Call → Option Text
  | write p _ _ => some p
  | _ => none

end Call

variable {σ : Type}

/-- Access to files that lists the calls made. -/
def Files.logged (files : Files (StateM σ)) : Files (StateM (σ × List Call)) where
  isFile p := fun s =>
    ((files.isFile p s.1).1, (files.isFile p s.1).2, s.2 ++ [.isFile p (files.isFile p s.1).1])
  read p := fun s =>
    ((files.read p s.1).1, (files.read p s.1).2, s.2 ++ [.read p (files.read p s.1).1])
  write p t := fun s =>
    ((files.write p t s.1).1, (files.write p t s.1).2,
      s.2 ++ [.write p t (files.write p t s.1).1])

theorem Files.logged_isFile (files : Files (StateM σ)) (p : Text) (s : σ) (log : List Call) :
    files.logged.isFile p (s, log) = ((files.isFile p s).1, (files.isFile p s).2,
      log ++ [.isFile p (files.isFile p s).1]) := rfl

theorem bind_apply {α β : Type} (x : StateM σ α) (f : α → StateM σ β) (s : σ) :
    (x >>= f) s = f (x s).1 (x s).2 := rfl

/-- A program on logged files does what a program on the files does. -/
def Mirrors {α : Type} (x : StateM (σ × List Call) α) (y : StateM σ α) : Prop :=
  ∀ s log, (x (s, log)).1 = (y s).1 ∧ (x (s, log)).2.1 = (y s).2

namespace Mirrors

variable {α β : Type}

theorem pure (a : α) : Mirrors (σ := σ) (Pure.pure a) (Pure.pure a) := fun _ _ => ⟨rfl, rfl⟩

theorem bind {x : StateM (σ × List Call) α} {y : StateM σ α} {f : α → StateM (σ × List Call) β}
    {g : α → StateM σ β} (h : Mirrors x y) (hf : ∀ a, Mirrors (f a) (g a)) :
    Mirrors (x >>= f) (y >>= g) := by
  intro s log
  obtain ⟨hvalue, hstate⟩ := h s log
  rw [bind_apply, bind_apply, ← hvalue, ← hstate]
  exact hf _ _ _

end Mirrors

variable (files : Files (StateM σ)) (dryRun : Bool)

theorem Target.patch_mirrors (target : Target) (sink : Sink) :
    Mirrors (target.patch files.logged dryRun sink) (target.patch files dryRun sink) := by
  refine .bind (fun _ _ => ⟨rfl, rfl⟩) fun r => ?_
  cases r with
  | error f => exact .pure _
  | ok old =>
      simp only
      split
      · refine .bind (fun _ _ => ⟨rfl, rfl⟩) fun w => ?_
        cases w with
        | error f => exact .pure _
        | ok u => exact .pure _
      · exact .pure _

theorem Target.patchAll_mirrors (targets : List Target) (sink : Sink) :
    Mirrors (patchAll files.logged dryRun targets sink) (patchAll files dryRun targets sink) := by
  induction targets generalizing sink with
  | nil => exact .pure _
  | cons target targets ih =>
      refine .bind (target.patch_mirrors files dryRun sink) fun r => .bind (ih r.2) fun rest => ?_
      obtain ⟨result, sink'⟩ := r
      cases result with
      | error f => exact .pure _
      | ok file => exact .pure _

theorem Config.targets_mirrors (c : Config) :
    Mirrors (c.targets files.logged) (c.targets files) := by
  rw [targets, targets]
  cases c.android with
  | none => exact .pure _
  | some a =>
      refine .bind ?_ fun r => .pure _
      refine .bind (fun _ _ => ⟨rfl, rfl⟩) fun groovy => ?_
      cases groovy with
      | false => exact .bind (fun _ _ => ⟨rfl, rfl⟩) fun kotlin => .pure _
      | true => exact .pure _

/-- A run on logged files gives the same report and leaves the files the same. -/
theorem run_logged (c : Config) (s : σ) (log : List Call) :
    (run c files.logged dryRun (s, log)).1 = (run c files dryRun s).1 ∧
      (run c files.logged dryRun (s, log)).2.1 = (run c files dryRun s).2 :=
  Mirrors.bind (c.targets_mirrors files)
    (fun r => Target.patchAll_mirrors files dryRun r.1 r.2) s log

end Graft
