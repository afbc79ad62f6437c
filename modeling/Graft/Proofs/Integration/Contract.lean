import Graft.Integration.Script
import Graft.Proofs.Integration.Packages

/-! # The contract of all steps

The steps that the pipelines are built from keep the contract of a step, whatever they are set up
with; only the fields of a block and its names must have no brace, and the registration of the
package is that of the standard payload.  So a pipeline of such steps returns what it would return
without those that report a diagnostic that refuses (`Stock.contract_and_kept`). -/

namespace Graft

open Step (kept runAll)

/-- The steps that pipelines are built from. -/
inductive Stock : Step → Prop where
  | lines (s : LinesStep) : Stock s.step
  | insertion (s : InsertionStep) : Stock s.step
  | method (s : MethodStep) : Stock s.step
  | finalLine (s : FinalLineStep) : Stock s.step
  | assignment (s : AssignmentStep) : Stock s.step
  | resource (s : ResourceStep) : Stock s.step
  | nestedFields (s : NestedFieldsStep) (h : s.NoBraces) : Stock s.step
  | packages : Stock (Entry.packagesStep Payload.standard)

namespace Stock

theorem contract {s : Step} (h : Stock s) : s.Contract := by
  cases h with
  | lines s => exact s.contract
  | insertion s => exact s.contract
  | method s => exact s.contract
  | finalLine s => exact s.contract
  | assignment s => exact s.contract
  | resource s => exact s.contract
  | nestedFields s h => exact NestedFieldsStep.contract h
  | packages => exact Entry.packages_contract

/-- Every step keeps the contract, and the steps that refuse could have been left out. -/
theorem contract_and_kept {steps : List Step} (h : ∀ s ∈ steps, Stock s) :
    (∀ s ∈ steps, s.Contract) ∧
      ∀ t sink, (runAll (kept steps t sink) t sink).1 = (runAll steps t sink).1 := by
  have hcontract : ∀ s ∈ steps, s.Contract := fun s hs => (h s hs).contract
  exact ⟨hcontract, Step.runAll_kept hcontract⟩

/-- The steps for a build script, with the registration of the package among them. -/
def sampleSteps : List Step := [
  (Script.applyStep Payload.standard).step,
  (Script.buildTypesStep Payload.standard).step,
  Entry.packagesStep Payload.standard,
  (Script.assignmentStep Payload.standard).step]

theorem contract_and_kept_sampleSteps :
    ((∀ s ∈ sampleSteps, s.Contract) ∧
      ∀ t sink, (runAll (kept sampleSteps t sink) t sink).1 = (runAll sampleSteps t sink).1) ∧
      (kept sampleSteps [] .empty).map (·.name) = ["apply-line", "react-block"] := by
  have hstock : ∀ s ∈ sampleSteps, Stock s := by
    simp only [sampleSteps, List.mem_cons, List.not_mem_nil, or_false]
    rintro s (rfl | rfl | rfl | rfl)
    · exact .finalLine _
    · exact .nestedFields _ (by decide)
    · exact .packages
    · exact .assignment _
  exact ⟨contract_and_kept hstock, by decide⟩

end Stock

end Graft
