import Graft.Proofs.Step.Block
import Graft.Step.Insertion
import Graft.Step.Resource

/-! # The contract of a step

A step adds at most one diagnostic and touches none of the earlier ones, and it gives back the text
as it was when the diagnostic says that something was not found or is not supported
(`Step.Contract`).  This module proves it for the steps of the library one kind after the other.
From the contract it follows that the steps which report such a diagnostic could as well have been
left out of a pipeline (`Step.runAll_kept`). -/

namespace Graft

open Brace (Free)

namespace DiagnosticKind

/-- Whether a diagnostic of this kind says that a step has not done its work. -/
def refuses : DiagnosticKind → Bool
  | structuralNotFound | unsupportedFileDialect => true
  | fallback => false

end DiagnosticKind

namespace Step

/-- What every step promises: the result does not depend on the sink, at most one diagnostic is
added to it, and a diagnostic that refuses comes with the text as it was. -/
def Contract (s : Step) : Prop :=
  ∀ t, ∃ t' ds, (∀ sink, s.apply t sink = (t', ⟨sink.entries ++ ds⟩)) ∧ ds.length ≤ 1 ∧
    ∀ d ∈ ds, d.kind.refuses → t' = t

/-- The steps of a run that report no diagnostic that refuses. -/
def kept : List Step → Text → Sink → List Step
  | [], _, _ => []
  | s :: steps, t, sink =>
    let (t', sink') := s.apply t sink
    let rest := kept steps t' sink'
    if (sink'.since sink.size).any (·.kind.refuses) then rest else s :: rest

variable {s : Step} {t t' : Text}

/-! ### Ways to keep the contract -/

/-- A run of a step that leaves the sink alone. -/
def RunsQuietly (s : Step) (t t' : Text) : Prop := ∀ sink, s.apply t sink = (t', sink)

/-- A run of a step that refuses. -/
def Refuses (s : Step) (t : Text) : Prop := ∃ d, ∀ sink, s.apply t sink = (t, sink.push d)

/-- A run of a step that reports a guess. -/
def Guesses (s : Step) (t t' : Text) : Prop :=
  ∃ d, d.kind = .fallback ∧ ∀ sink, s.apply t sink = (t', sink.push d)

theorem contract_of_cases (h : ∀ t, ∃ t', s.RunsQuietly t t' ∨ s.Refuses t ∨ s.Guesses t t') :
    s.Contract := by
  intro t
  obtain ⟨t', hquiet | ⟨d, hrefuses⟩ | ⟨d, hkind, hguesses⟩⟩ := h t
  · exact ⟨t', [], fun sink => by rw [hquiet sink, List.append_nil], Nat.zero_le _, by simp⟩
  · exact ⟨t, [d], hrefuses, Nat.le_refl _, fun _ _ _ => rfl⟩
  · refine ⟨t', [d], hguesses, Nat.le_refl _, fun d' hd' hr => ?_⟩
    obtain rfl := List.mem_singleton.mp hd'
    rw [hkind] at hr
    simp [DiagnosticKind.refuses] at hr

/-! ### Pipelines -/

theorem Contract.independent (h : s.Contract) (t : Text) (sink sink' : Sink) :
    (s.apply t sink).1 = (s.apply t sink').1 := by
  obtain ⟨t', ds, happly, -⟩ := h t
  rw [happly, happly]

/-- The text that a pipeline returns does not depend on the sink. -/
theorem runAll_independent {steps : List Step} (h : ∀ s ∈ steps, s.Contract) (t : Text)
    (sink sink' : Sink) : (runAll steps t sink).1 = (runAll steps t sink').1 := by
  induction steps generalizing t sink sink' with
  | nil => rfl
  | cons s steps ih =>
      have hs := (h s (List.mem_cons_self ..)).independent t sink sink'
      have ih := ih fun s hs => h s (List.mem_cons_of_mem _ hs)
      change (runAll steps (s.apply t sink).1 (s.apply t sink).2).1 =
        (runAll steps (s.apply t sink').1 (s.apply t sink').2).1
      rw [hs]
      exact ih _ _ _

/-- What a pipeline returns, by its first step. -/
theorem runAll_cons_fst {steps : List Step} (h : ∀ s' ∈ s :: steps, s'.Contract) (t : Text)
    (sink : Sink) : (runAll (s :: steps) t sink).1 = (runAll steps (s.apply t .empty).1 .empty).1 := by
  change (runAll steps (s.apply t sink).1 (s.apply t sink).2).1 = _
  rw [(h s (List.mem_cons_self ..)).independent t sink .empty]
  exact runAll_independent (fun s hs => h s (List.mem_cons_of_mem _ hs)) _ _ _

theorem mem_of_mem_kept {steps : List Step} {t : Text} {sink : Sink} (h : s ∈ kept steps t sink) :
    s ∈ steps := by
  induction steps generalizing t sink with
  | nil => exact h
  | cons s' steps ih =>
      simp only [kept] at h
      split at h
      · exact List.mem_cons_of_mem _ (ih h)
      · rcases List.mem_cons.mp h with rfl | h
        · exact List.mem_cons_self ..
        · exact List.mem_cons_of_mem _ (ih h)

/-- Leaving out the steps that refuse does not change the text that a pipeline returns. -/
theorem runAll_kept {steps : List Step} (h : ∀ s ∈ steps, s.Contract) (t : Text) (sink : Sink) :
    (runAll (kept steps t sink) t sink).1 = (runAll steps t sink).1 := by
  induction steps generalizing t sink with
  | nil => rfl
  | cons s steps ih =>
      obtain ⟨t', ds, happly, -, hrefuses⟩ := h s (List.mem_cons_self ..) t
      have hrest := fun s hs => h s (List.mem_cons_of_mem _ hs)
      have ih := ih hrest t' ⟨sink.entries ++ ds⟩
      have hsince : Sink.since ⟨sink.entries ++ ds⟩ sink.size = ds := by
        simp [Sink.since, Sink.size]
      have hrun : ∀ steps, runAll (s :: steps) t sink =
          runAll steps t' ⟨sink.entries ++ ds⟩ := by
        intro steps
        change runAll steps (s.apply t sink).1 (s.apply t sink).2 = _
        rw [happly]
      rw [hrun steps, ← ih]
      simp only [kept, happly, hsince]
      cases hany : ds.any (·.kind.refuses) with
      | true =>
          obtain ⟨d, hd, hr⟩ := List.any_eq_true.mp hany
          obtain rfl := hrefuses d hd hr
          rw [if_pos rfl]
          exact runAll_independent (fun s hs => hrest s (mem_of_mem_kept hs)) _ _ _
      | false => rw [if_neg Bool.false_ne_true, hrun]

end Step

/-! ### The kinds of steps -/

theorem inject_anchorNotFound {f : Fragment} {anchor : Option Anchor} {fallback : Option Recognizer}
    {t : Text} (h : (inject f anchor fallback t).outcome = .anchorNotFound) :
    (inject f anchor fallback t).text = t := by
  rw [inject] at h ⊢
  split
  · rfl
  · next hpresent =>
      rw [if_neg hpresent] at h
      revert h
      cases anchor.orElse fun _ => fallback.bind (·.recognize? t) with
      | none => exact fun _ => rfl
      | some a => exact fun h => nomatch h

theorem ensureLines_anchorNotFound {ls alternates : List Text} {chain : List Recognizer} {t : Text}
    (h : (ensureLines ls alternates chain t).outcome = .anchorNotFound) :
    (ensureLines ls alternates chain t).text = t := by
  simp only [ensureLines] at h ⊢
  split
  · rfl
  · next h1 =>
      rw [if_neg h1] at h
      split
      · rfl
      · next h2 =>
          rw [if_neg h2] at h
          exact inject_anchorNotFound h

theorem LinesStep.contract (s : LinesStep) : s.step.Contract := by
  refine Step.contract_of_cases fun t => ⟨(ensureLines (s.linesFor t) s.alternates s.chain t).text, ?_⟩
  cases hout : (ensureLines (s.linesFor t) s.alternates s.chain t).outcome with
  | anchorNotFound =>
      refine .inr (.inl ⟨⟨s.platform, .structuralNotFound, s.code,
        "no import anchor found; imports not added"⟩, fun sink => ?_⟩)
      simp only [step, apply, hout, ensureLines_anchorNotFound hout]
      rfl
  | _ =>
      refine .inl fun sink => ?_
      simp only [step, apply, hout]

theorem InsertionStep.contract (s : InsertionStep) : s.step.Contract := by
  refine Step.contract_of_cases fun t => ?_
  by_cases hpresent : s.fragment.isPresent t
  · exact ⟨t, .inl fun sink => by simp only [step, apply, hpresent, if_true]⟩
  · cases hscope : s.missingScope? t with
    | some what =>
        refine ⟨t, .inr (.inl ⟨⟨s.platform, .structuralNotFound, s.code,
          what ++ " not found; " ++ s.fragment.name ++ " skipped"⟩, fun sink => ?_⟩)⟩
        simp only [step, apply, hpresent, hscope]
        rfl
    | none =>
        refine ⟨(inject s.fragment (resolve? s.chain t) s.scopeEnd t).text, ?_⟩
        cases hout : (inject s.fragment (resolve? s.chain t) s.scopeEnd t).outcome with
        | anchorNotFound =>
            refine .inr (.inl ⟨⟨s.platform, .structuralNotFound, s.code,
              "no anchor found for " ++ s.fragment.name ++ "; not inserted"⟩, fun sink => ?_⟩)
            simp only [step, apply, hpresent, hscope, hout, report, inject_anchorNotFound hout]
            rfl
        | inserted r =>
            by_cases hlow : s.lowConfidence.contains r
            · refine .inr (.inr ⟨⟨s.platform, .fallback, s.fallbackCode.getD s.code,
                s.fragment.name ++ " inserted using fallback anchor '" ++ r ++
                  "'; review placement"⟩, rfl, fun sink => ?_⟩)
              simp only [step, apply, hpresent, hscope, hout, report, hlow, if_true]
              rfl
            · refine .inl fun sink => ?_
              simp only [step, apply, hpresent, hscope, hout, report, hlow]
              rfl
        | _ =>
            refine .inl fun sink => ?_
            simp only [step, apply, hpresent, hscope, hout, report]
            rfl

theorem FinalLineStep.contract (s : FinalLineStep) : s.step.Contract := by
  refine Step.contract_of_cases fun t => ⟨(s.apply t .empty).1, .inl fun sink => ?_⟩
  simp only [step, apply]
  split
  · rfl
  · split <;> rfl

theorem ResourceStep.contract (s : ResourceStep) : s.step.Contract := by
  refine Step.contract_of_cases fun t => ?_
  cases hput : s.format.putAll? t s.entries with
  | some t' => exact ⟨t', .inl fun sink => by simp only [step, apply, hput]⟩
  | none =>
      refine ⟨t, .inr (.inl ⟨⟨s.platform, .unsupportedFileDialect, s.code,
        "resource file has no recognizable container; entries not written"⟩, fun sink => ?_⟩)⟩
      simp only [step, apply, hput]

theorem MethodStep.contract (s : MethodStep) : s.step.Contract := by
  refine Step.contract_of_cases fun t => ?_
  cases hvariant : s.variants.find? fun v => (Scope.find? v.header t).isSome with
  | some v => exact ⟨_, .inl fun sink => by simp only [step, apply, hvariant]; rfl⟩
  | none =>
      cases hbody : s.insertionBody? t with
      | none =>
          refine ⟨t, .inr (.inl ⟨⟨s.platform, .structuralNotFound, s.code,
            "no " ++ s.method ++ " body applies to this file"⟩, fun sink => ?_⟩)⟩
          simp only [step, apply, hvariant, hbody]
          rfl
      | some body =>
          refine ⟨(inject (Fragment.ofText s.method body).withBlankLineBefore
            (resolve? s.chain t) none t).text, ?_⟩
          cases hout : (inject (Fragment.ofText s.method body).withBlankLineBefore
            (resolve? s.chain t) none t).outcome with
          | anchorNotFound =>
              refine .inr (.inl ⟨⟨s.platform, .structuralNotFound, s.code,
                "could not find a place to insert " ++ s.method⟩, fun sink => ?_⟩)
              simp only [step, apply, hvariant, hbody, hout, inject_anchorNotFound hout]
              rfl
          | _ =>
              refine .inl fun sink => ?_
              simp only [step, apply, hvariant, hbody, hout]

theorem ensureInside_outcome (a : BlockAssignment) (closeIndent inner : Text) :
    (a.ensureInside closeIndent inner).outcome ≠ .braceNotFound := by
  rw [BlockAssignment.ensureInside]
  split
  · simp
  · split <;> simp

theorem BlockAssignment.ensure_braceNotFound {a : BlockAssignment} {after : Option Text} {t : Text}
    (h : (a.ensure after t).outcome = .braceNotFound) : (a.ensure after t).text = t := by
  rw [ensure] at h ⊢
  cases hfind : BlockHeader.find? a.block t with
  | none =>
      rw [hfind] at h
      exact nomatch h
  | some header =>
      rw [hfind] at h
      simp only [Block.edit] at h ⊢
      cases hclose : header.closeAt? t with
      | none => rfl
      | some close =>
          rw [hclose] at h
          simp only at h
          split at h
          · exact absurd h (ensureInside_outcome a _ _)
          · exact absurd h (ensureInside_outcome a _ _)

theorem AssignmentStep.contract (s : AssignmentStep) : s.step.Contract := by
  refine Step.contract_of_cases fun t => ⟨(s.assignment.ensure s.after t).text, ?_⟩
  cases hout : (s.assignment.ensure s.after t).outcome with
  | braceNotFound =>
      refine .inr (.inl ⟨⟨s.platform, .structuralNotFound, s.code, "unbalanced braces in '" ++
        String.ofList s.assignment.block ++ "' block; field skipped"⟩, fun sink => ?_⟩)
      simp only [step, apply, hout, BlockAssignment.ensure_braceNotFound hout]
      rfl
  | _ =>
      refine .inl fun sink => ?_
      simp only [step, apply, hout]

/-- Only the first field can fail, when nothing has been changed yet. -/
theorem NestedFieldsStep.contract {s : NestedFieldsStep} (hs : s.NoBraces) : s.step.Contract := by
  obtain ⟨hscope, hparent, hfields⟩ := hs
  refine Step.contract_of_cases fun t => ?_
  rcases find?_cases s.scope t with hnone | ⟨h, hfind, hclose⟩ | hclosed
  · refine ⟨t, .inr (.inl ⟨⟨s.platform, .structuralNotFound, s.code, "'" ++ String.ofList s.scope ++
      "' block not found; '" ++ String.ofList s.parent ++ "' fields skipped"⟩, fun sink => ?_⟩)⟩
    simp only [step, apply, hnone]
    rfl
  · cases hf : s.fields with
    | nil =>
        refine ⟨t, .inl fun sink => ?_⟩
        simp only [step, apply, hfind, hf, applyFields]
    | cons f fields =>
        refine ⟨t, .inr (.inl ⟨⟨s.platform, .structuralNotFound, s.code, "unbalanced braces around "
          ++ s.outer ++ "; '" ++ String.ofList f.1 ++ "' field skipped"⟩, fun sink => ?_⟩)⟩
        simp only [step, apply, hfind, hf, applyFields, edit_of_closeAt?_eq_none hclose]
        rfl
  · obtain ⟨a, ind, gap, inner, b, h⟩ := hclosed
    obtain ⟨t', ht'⟩ := applyFields_of_closed hscope hparent s.fields hfields
      ⟨a, ind, gap, inner, b, h⟩
    refine ⟨t', .inl fun sink => ?_⟩
    simp only [step, apply, h.find?_eq, ht']

end Graft
