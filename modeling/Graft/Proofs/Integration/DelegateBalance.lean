import Graft.Proofs.Integration.Delegate
import Graft.Proofs.Step.Balance

/-! # The braces of a patched application delegate

The import is a line without braces, so only a method that is replaced can upset a balanced
delegate.  Its scope goes from the start of the line of its header on; what precedes the header on
that line, or lies between header and brace, can hold braces of other scopes.  A balanced delegate
stays balanced exactly when there are as many opening as closing ones in what goes
(`isBalanced_run_iff_replacedScope`). -/

namespace Graft.Delegate

open Brace (Free isBalanced)

variable {t : Text}

/-- What the second step is given. -/
def afterImport (p : Payload) (t : Text) (sink : Sink) : Text := ((importStep p).apply t sink).1

theorem run_fst {payload : Payload} (t : Text) (sink : Sink) :
    ((pipeline payload).run t sink).1 = ((bundleUrlStep payload).apply
      (afterImport payload t sink) ((importStep payload).apply t sink).2).1 := rfl

theorem afterImport_of_hasImport (h : HasImport t) (sink : Sink) :
    afterImport .standard t sink = t := by
  rcases importStep_cases t sink with ⟨-, he⟩ | ⟨hnot, -⟩
  · exact he
  · exact absurd h hnot

theorem isBalanced_afterImport (t : Text) (sink : Sink) :
    isBalanced (afterImport .standard t sink) = isBalanced t := by
  rw [afterImport]
  rcases importStep_cases t sink with ⟨-, he⟩ | ⟨-, p, lead, indent, q, -, hins⟩
  · rw [he]
  · refine hins.isBalanced_eq ?_
    have hfree : Free (importLine t) := free_marker _ (importLine_mem t)
    rw [List.flatten_singleton, isBalanced, Text.closes_squeeze]
    exact hfree.isBalanced

/-- A balanced delegate stays balanced if and only if the text that gives way to the method, if there
is one, opens as many braces as it closes. -/
theorem isBalanced_run_iff_replacedScope (t : Text) (sink : Sink) (ht : isBalanced t) :
    isBalanced ((pipeline .standard).run t sink).1 ↔
      ∀ old, (bundleUrlStep .standard).replaced? (afterImport .standard t sink) = some old →
        Brace.depth old = 0 := by
  rw [run_fst]
  refine MethodStep.isBalanced_apply_iff proper_bundleUrlStep ?_ _
  rw [isBalanced_afterImport]
  exact ht

/-- A delegate whose method starts a line. -/
def roomyDelegate : Text :=
  "import CodePush\nclass A \x7b\noverride func bundleURL()->URL?\x7b\x7d\x7d".toList

/-- A delegate whose class opens on the line of the method. -/
def crowdedDelegate : Text :=
  "import CodePush\nclass A \x7boverride func bundleURL()->URL?\x7b\x7d\x7d".toList

theorem replaced?_roomyDelegate :
    (bundleUrlStep .standard).replaced? roomyDelegate = some (roomyDelegate.slice 26 59) := by
  decide +kernel

theorem replaced?_crowdedDelegate :
    (bundleUrlStep .standard).replaced? crowdedDelegate = some (crowdedDelegate.slice 16 58) := by
  decide +kernel

theorem isBalanced_run_roomyDelegate :
    isBalanced roomyDelegate ∧ isBalanced ((pipeline .standard).run roomyDelegate .empty).1 := by
  have hbalanced : isBalanced roomyDelegate := by decide
  refine ⟨hbalanced, (isBalanced_run_iff_replacedScope roomyDelegate .empty hbalanced).mpr
    fun old h => ?_⟩
  rw [afterImport_of_hasImport (by decide), replaced?_roomyDelegate] at h
  obtain rfl := Option.some.inj h
  decide

/-- With the method goes the brace that opens the class. -/
theorem not_isBalanced_run_crowdedDelegate :
    isBalanced crowdedDelegate ∧
      ¬isBalanced ((pipeline .standard).run crowdedDelegate .empty).1 := by
  have hbalanced : isBalanced crowdedDelegate := by decide
  refine ⟨hbalanced, ?_⟩
  rw [run_fst, afterImport_of_hasImport (by decide),
    MethodStep.isBalanced_apply_iff proper_bundleUrlStep hbalanced, replaced?_crowdedDelegate]
  intro h
  exact absurd (h _ rfl) (by decide)

end Graft.Delegate
