import Graft.Integration.Delegate
import Graft.Integration.Entry
import Graft.Integration.Resources
import Graft.Integration.Script
import Graft.Proofs.Step.Contract

/-! # What steps add to a sink

A step looks at its text only: whatever is in the sink already, the text it returns and the
diagnostics it adds are the same (`Step.Additive`).  This holds for every payload, also where a
step keeps no other promise, and is inherited by the pipelines (`Pipeline.Additive`). -/

namespace Graft

namespace Sink

/-- The diagnostics of one sink after those of another. -/
def append (s s' : Sink) : Sink := ⟨s.entries ++ s'.entries⟩

@[simp] theorem append_entries (s s' : Sink) : (s.append s').entries = s.entries ++ s'.entries := rfl

@[simp] theorem append_empty (s : Sink) : s.append .empty = s := by simp [append, empty]

theorem append_assoc (a b c : Sink) : (a.append b).append c = a.append (b.append c) := by
  simp [append]

theorem append_push (s s' : Sink) (d : Diagnostic) : s.append (s'.push d) = (s.append s').push d := by
  simp [append, push]

end Sink

namespace Step

/-- What a step returns and adds to a sink does not depend on what the sink holds. -/
def Additive (s : Step) : Prop :=
  ∀ t sink, s.apply t sink = ((s.apply t .empty).1, sink.append (s.apply t .empty).2)

theorem Contract.additive {s : Step} (h : s.Contract) : s.Additive := by
  intro t sink
  obtain ⟨t', ds, happly, -⟩ := h t
  rw [happly sink, happly .empty]
  rfl

theorem runAll_cons (s : Step) (steps : List Step) (t : Text) (sink : Sink) :
    runAll (s :: steps) t sink = runAll steps (s.apply t sink).1 (s.apply t sink).2 := rfl

theorem runAll_append_sink {steps : List Step} (h : ∀ s ∈ steps, s.Additive) (t : Text)
    (sink : Sink) :
    runAll steps t sink = ((runAll steps t .empty).1, sink.append (runAll steps t .empty).2) := by
  induction steps generalizing t sink with
  | nil => simp [runAll]
  | cons s steps ih =>
      have hs := h s (List.mem_cons_self ..) t sink
      have ih := ih fun s hs => h s (List.mem_cons_of_mem _ hs)
      rw [runAll_cons, runAll_cons, hs]
      rw [ih _ (sink.append _), ih _ (s.apply t .empty).2, Sink.append_assoc]

end Step

/-! ### The steps that can break the contract -/

theorem NestedFieldsStep.applyFields_sink (s : NestedFieldsStep) (fields : List (Text × Text))
    (t : Text) (sink : Sink) :
    s.applyFields fields t sink =
      ((s.applyFields fields t .empty).1, sink.append (s.applyFields fields t .empty).2) := by
  induction fields generalizing t with
  | nil => simp [applyFields]
  | cons f fields ih =>
      simp only [applyFields]
      cases BlockHeader.find? s.scope t with
      | none => simp
      | some h =>
          simp only
          split
          · simp [Sink.notFound, Sink.append_push]
          · exact ih _

theorem NestedFieldsStep.additive (s : NestedFieldsStep) : s.step.Additive := by
  intro t sink
  simp only [step, apply]
  cases BlockHeader.find? s.scope t with
  | none => simp [Sink.notFound, Sink.append_push]
  | some h => exact s.applyFields_sink _ _ _

namespace Entry

theorem makeMutable_sink (p : Payload) (t : Text) (sink : Sink) :
    makeMutable p t sink =
      ((makeMutable p t .empty).1, sink.append (makeMutable p t .empty).2) := by
  simp only [makeMutable]
  split
  · simp
  · split
    · simp
    · simp [Sink.append_push]

theorem packagesStep_additive (p : Payload) : (packagesStep p).Additive := by
  intro t sink
  simp only [packagesStep, registerPackage]
  cases returnLine.recognize? t with
  | none => 
      simp only
      split
      · simp
      · simp [returnNotFound, Sink.notFound, Sink.append_push]
  | some a =>
      simp only [makeMutable_sink p t sink]
      split
      · simp [returnNotFound, Sink.notFound, Sink.append_push]
      · simp

end Entry

/-! ### Pipelines -/

namespace Pipeline

/-- All steps of a pipeline look at the text only. -/
def Additive (p : Pipeline) : Prop := ∀ s ∈ p.steps, s.Additive

/-- The text that a pipeline makes of a text. -/
def output (p : Pipeline) (t : Text) : Text := (p.run t .empty).1

/-- The diagnostics that a pipeline has on a text. -/
def notes (p : Pipeline) (t : Text) : List Diagnostic := (p.run t .empty).2.entries

theorem run_eq {p : Pipeline} (h : p.Additive) (t : Text) (sink : Sink) :
    p.run t sink = (p.output t, ⟨sink.entries ++ p.notes t⟩) :=
  Step.runAll_append_sink h t sink

end Pipeline

theorem Delegate.pipeline_additive (p : Payload) : (Delegate.pipeline p).Additive := by
  simp only [Pipeline.Additive, pipeline, List.forall_mem_cons]
  exact ⟨(importStep p).contract.additive, (bundleUrlStep p).contract.additive, by simp⟩

theorem Entry.pipeline_additive (p : Payload) (package : Text) :
    (Entry.pipeline p package).Additive := by
  simp only [Pipeline.Additive, pipeline, List.forall_mem_cons]
  exact ⟨(importsStep p package).contract.additive, (startUpStep p).contract.additive,
    packagesStep_additive p, (accessorStep p).contract.additive, by simp⟩

theorem Script.pipeline_additive (p : Payload) : (Script.pipeline p).Additive := by
  simp only [Pipeline.Additive, pipeline, List.forall_mem_cons]
  exact ⟨(applyStep p).contract.additive, (buildTypesStep p).additive,
    (assignmentStep p).contract.additive, by simp⟩

theorem Resources.stringTablePipeline_additive (es : List ResourceEntry) :
    (Resources.stringTablePipeline es).Additive := by
  simp only [Pipeline.Additive, stringTablePipeline, List.forall_mem_cons]
  exact ⟨ResourceStep.contract _ |>.additive, by simp⟩

theorem Resources.propertyListPipeline_additive (es : List ResourceEntry) :
    (Resources.propertyListPipeline es).Additive := by
  simp only [Pipeline.Additive, propertyListPipeline, List.forall_mem_cons]
  exact ⟨ResourceStep.contract _ |>.additive, by simp⟩

end Graft
