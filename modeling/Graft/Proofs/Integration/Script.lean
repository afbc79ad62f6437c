import Graft.Integration.Script
import Graft.Proofs.Block.Assignment
import Graft.Proofs.Step.Fields

/-! # A patched build script

The steps for a build script leave their own output alone: each finds what it wrote, although the
later ones have changed the text around it (`run_run`).  The one thing that can get lost is what the
last step replaces, so the text that it replaces must have no brace and none of what the steps
before it make sure of (`KeepsFields`). -/

namespace Graft

open Text (Clear)
open Brace (Free)

/-! ### A last line -/

/-- The step finds its line in the text that it returns. -/
theorem FinalLineStep.infix_apply (s : FinalLineStep) (t : Text) (sink : Sink) :
    s.line.trim <:+: (s.apply t sink).1 := by
  simp only [apply]
  split
  · next h =>
      rcases Bool.or_eq_true .. ▸ h with h | h
      · rw [List.isEmpty_iff.mp h]
        exact List.nil_infix
      · exact Text.occursIn_iff.mp h
  · split
    · exact ⟨[], ['\n'], by simp⟩
    · exact ⟨t.trimEnd ++ ['\n', '\n'], ['\n'], by simp⟩

theorem FinalLineStep.apply_of_infix {s : FinalLineStep} {t : Text} (h : s.line.trim <:+: t)
    (sink : Sink) : s.apply t sink = (t, sink) := by
  simp only [apply]
  rw [if_pos]
  rw [Text.occursIn_iff.mpr h, Bool.or_true]

theorem AssignmentStep.apply_fst (s : AssignmentStep) (t : Text) (sink : Sink) :
    (s.apply t sink).1 = (s.assignment.ensure s.after t).text := by
  rw [apply]
  split <;> rfl

namespace Script

variable {p : Payload}

/-- What the steps for a build script need: a solid last line, different words for the blocks, and
fields that are solid lines. -/
structure Proper (p : Payload) : Prop where
  line : Solid (applyStep p).line.trim
  fields : (buildTypesStep p).Proper
  assignment : (assignmentStep p).assignment.Proper
  apart : ∀ n ∈ (buildTypesStep p).scope :: (buildTypesStep p).parent ::
    (buildTypesStep p).fields.map (·.1), n ≠ (assignmentStep p).assignment.block

theorem proper_standard : Proper Payload.standard where
  line := by decide
  fields := ⟨by decide, by decide, by decide⟩
  assignment := ⟨by decide, by decide, 'b', "undleAssetName".toList, [' '],
    " \"main.jsbundle\"".toList, by decide, by decide, by decide, by decide, by decide⟩
  apart := by decide

/-- What the last step is given. -/
def beforeAssignment (p : Payload) (t : Text) (sink : Sink) : Text :=
  (Step.runAll [(applyStep p).step, (buildTypesStep p).step] t sink).1

/-- The text that the last step replaces, if it replaces one, has no brace, and neither the last
line nor a field of the build types. -/
def KeepsFields (p : Payload) (t : Text) (sink : Sink) : Prop :=
  ∀ old, (assignmentStep p).assignment.replaced? (beforeAssignment p t sink) = some old →
    Free old ∧ ¬(applyStep p).line.trim <:+: old ∧
      ∀ f ∈ (buildTypesStep p).fields, ¬f.2.trim <:+: old

/-- The text that the steps return holds all that they make sure of, so they leave it alone. -/
theorem run_run_of_proper (hp : Proper p) (t : Text) (sink sink' : Sink)
    (hkeeps : KeepsFields p t sink) :
    ((pipeline p).run ((pipeline p).run t sink).1 sink').1 = ((pipeline p).run t sink).1 := by
  have hline : (applyStep p).line.trim <:+: beforeAssignment p t sink :=
    (NestedFieldsStep.settled_apply hp.fields _ _).2 _ hp.line
      (FinalLineStep.infix_apply (applyStep p) t sink)
  have hfields : (buildTypesStep p).Settled (beforeAssignment p t sink) :=
    (NestedFieldsStep.settled_apply hp.fields _ _).1
  have hrun : ((pipeline p).run t sink).1 =
      ((assignmentStep p).assignment.ensure (assignmentStep p).after
        (beforeAssignment p t sink)).text :=
    AssignmentStep.apply_fst (assignmentStep p) _ _
  have hstays : ∀ {x}, (applyStep p).line.trim <:+: x → (buildTypesStep p).Settled x →
      ((assignmentStep p).assignment.ensure (assignmentStep p).after x).text = x →
        ((pipeline p).run x sink').1 = x := by
    intro x h1 h2 h3
    change ((assignmentStep p).apply ((buildTypesStep p).apply ((applyStep p).apply x sink').1
      ((applyStep p).apply x sink').2).1 _).1 = x
    rw [AssignmentStep.apply_fst, FinalLineStep.apply_of_infix h1,
      NestedFieldsStep.apply_of_settled h2, h3]
  rw [hrun]
  rcases BlockAssignment.ensure_cases hp.assignment (assignmentStep p).after
    (beforeAssignment p t sink) (fun r hr => (hkeeps r hr).1) with
    e | ⟨before, old, new, after, hplaced⟩
  · rw [e]
    exact hstays hline hfields e
  · have hclear : ∀ f ∈ (buildTypesStep p).fields, Clear f.2.trim before old after := fun f hf =>
      hplaced.clear _ (hp.fields.solid f hf) fun r hr => (hkeeps r hr).2.2 f hf
    have hlineClear : Clear (applyStep p).line.trim before old after :=
      hplaced.clear _ hp.line fun r hr => (hkeeps r hr).2.1
    refine hstays ?_ ?_ ?_
    · rw [hplaced.change.source] at hline
      rw [hplaced.change.target]
      exact hlineClear.kept hline
    · exact hfields.change hp.fields hplaced.change (fun n hn =>
        hplaced.silent n (hp.fields.words n hn) (hp.apart n hn)) hclear
    · obtain ⟨inner, hblock, hholds⟩ := hplaced.holds
      rw [BlockAssignment.ensure_of_holdsLine hp.assignment hblock hholds]

/-- Patching a build script a second time changes nothing. -/
theorem run_run (t : Text) (sink sink' : Sink) (h : KeepsFields Payload.standard t sink) :
    ((pipeline Payload.standard).run ((pipeline Payload.standard).run t sink).1 sink').1 =
      ((pipeline Payload.standard).run t sink).1 :=
  run_run_of_proper proper_standard t sink sink' h

/-- A script whose assignment is in a comment, and which has no `debug` in its build types. -/
def commentedScript : Text :=
  "react \x7b\n    // bundleAssetName = \"index.js\"\n\x7d\n".toList ++
    "android \x7b\n    buildTypes \x7b\n        release \x7b\x7d\n    \x7d\n\x7d\n".toList

theorem beforeAssignment_commentedScript :
    beforeAssignment Payload.standard commentedScript .empty =
      "react \x7b\n    // bundleAssetName = \"index.js\"\n\x7d\n".toList ++
      "android \x7b\n    buildTypes \x7b\n".toList ++
      "        release \x7b\n".toList ++
      "            buildConfigField \"boolean\", \"DEBUG\", \"false\"\n        \x7d\n".toList ++
      "        debug \x7b\n".toList ++
      "            buildConfigField \"boolean\", \"DEBUG\", \"true\"\n        \x7d\n".toList ++
      "    \x7d\n\x7d\n\n".toList ++ Payload.standard.gradleApplyLine ++ ['\n'] := by
  decide +kernel

theorem replaced?_commentedScript :
    (assignmentStep Payload.standard).assignment.replaced?
      (beforeAssignment Payload.standard commentedScript .empty) =
      some "    // bundleAssetName = \"index.js\"".toList := by
  rw [beforeAssignment_commentedScript]
  decide +kernel

theorem run_run_commentedScript :
    ((pipeline Payload.standard).run ((pipeline Payload.standard).run commentedScript .empty).1
      .empty).1 = ((pipeline Payload.standard).run commentedScript .empty).1 := by
  refine run_run commentedScript .empty .empty fun old h => ?_
  rw [replaced?_commentedScript] at h
  obtain rfl := Option.some.inj h
  decide +kernel

end Script

end Graft
