import Graft.Proofs.Integration.Script
import Graft.Proofs.Step.Balance

/-! # The braces of a patched build script

Of the steps for a build script only the assignment takes anything but white space away, and only
the line of an assignment that there was before.  So a balanced script stays balanced exactly when
that line opens as many braces as it closes (`isBalanced_run_iff_replacedLine`).  A value that goes
on over several lines can leave its closing brace behind (`not_isBalanced_run_splitValue`). -/

namespace Graft.Script

open Brace (isBalanced)

variable {p : Payload}

/-- The steps before the assignment leave the braces of a script as they match. -/
theorem isBalanced_beforeAssignment (hp : Proper p) (t : Text) (sink : Sink) :
    isBalanced (beforeAssignment p t sink) = isBalanced t := by
  have hword : ∀ n, n ∈ (buildTypesStep p).scope :: (buildTypesStep p).parent ::
      (buildTypesStep p).fields.map (·.1) → Brace.Free n := fun n hn => (hp.fields.words n hn).free
  calc isBalanced (beforeAssignment p t sink)
      = isBalanced ((buildTypesStep p).apply ((applyStep p).apply t sink).1
          ((applyStep p).apply t sink).2).1 := rfl
    _ = isBalanced ((applyStep p).apply t sink).1 :=
        NestedFieldsStep.isBalanced_apply (hword _ (by simp))
          (fun f hf => ⟨hword _ (by simp [List.mem_map_of_mem (f := (·.1)) hf]),
            (hp.fields.solid f hf).free⟩) _ _
    _ = isBalanced t := FinalLineStep.isBalanced_apply hp.line.free t sink

theorem isBalanced_run_iff_of_proper (hp : Proper p) (t : Text) (sink : Sink)
    (ht : isBalanced t) :
    isBalanced ((pipeline p).run t sink).1 ↔
      ∀ line, (assignmentStep p).assignment.replaced? (beforeAssignment p t sink) = some line →
        Brace.depth line = 0 := by
  have hrun : ((pipeline p).run t sink).1 =
      ((assignmentStep p).assignment.ensure (assignmentStep p).after
        (beforeAssignment p t sink)).text :=
    AssignmentStep.apply_fst (assignmentStep p) _ _
  rw [hrun]
  refine BlockAssignment.isBalanced_ensure_iff hp.assignment _ ?_
  rw [isBalanced_beforeAssignment hp]
  exact ht

/-- A balanced build script stays balanced if and only if the line that its assignment replaces, if
there is one, opens as many braces as it closes. -/
theorem isBalanced_run_iff_replacedLine (t : Text) (sink : Sink) (ht : isBalanced t) :
    isBalanced ((pipeline .standard).run t sink).1 ↔
      ∀ line, (assignmentStep .standard).assignment.replaced? (beforeAssignment .standard t sink) =
        some line → Brace.depth line = 0 :=
  isBalanced_run_iff_of_proper proper_standard t sink ht

theorem isBalanced_run_commentedScript :
    isBalanced commentedScript ∧
      isBalanced ((pipeline .standard).run commentedScript .empty).1 := by
  have hbalanced : isBalanced commentedScript := by decide +kernel
  refine ⟨hbalanced, (isBalanced_run_iff_replacedLine commentedScript .empty hbalanced).mpr
    fun line h => ?_⟩
  rw [replaced?_commentedScript] at h
  obtain rfl := Option.some.inj h
  decide

/-- A script whose assignment goes on on the next line. -/
def splitValueScript : Text :=
  "react \x7b\nbundleAssetName=f\x7b\n\x7d\n\x7d".toList

theorem beforeAssignment_splitValueScript :
    beforeAssignment Payload.standard splitValueScript .empty =
      splitValueScript ++ '\n' :: '\n' :: Payload.standard.gradleApplyLine ++ ['\n'] := by
  decide

theorem replaced?_splitValueScript :
    (assignmentStep Payload.standard).assignment.replaced?
      (beforeAssignment Payload.standard splitValueScript .empty) =
      some "bundleAssetName=f\x7b".toList := by
  rw [beforeAssignment_splitValueScript]
  decide

/-- The line that is replaced opens a brace that a later line closes. -/
theorem not_isBalanced_run_splitValue :
    isBalanced splitValueScript ∧
      ¬isBalanced ((pipeline .standard).run splitValueScript .empty).1 := by
  have hbalanced : isBalanced splitValueScript := by decide
  refine ⟨hbalanced, fun h => ?_⟩
  have hdepth := (isBalanced_run_iff_of_proper proper_standard _ _ hbalanced).mp h _
    replaced?_splitValueScript
  simp [Brace.delta] at hdepth

end Graft.Script
