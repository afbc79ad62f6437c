import Graft.Proofs.Block.Assignment
import Graft.Proofs.Brace.Replace
import Graft.Proofs.Step.Block
import Graft.Proofs.Step.Method

/-! # Steps that keep braces balanced

An edit that puts balanced text where white space was keeps the braces as they were, so inserted
lines, a final line and the fields of nested blocks never upset a balanced text.  The edits that
take more away can: an assignment takes the line that it replaces
(`BlockAssignment.isBalanced_ensure_iff`), a method the scope that it replaces from the start of its
line (`MethodStep.isBalanced_apply_iff`).  Either leaves a balanced text balanced exactly when what
it takes opens as many braces as it closes. -/

namespace Graft

open Brace (Free isBalanced)

variable {s t t' x p q l g ind indent lead gap inner b before old new after : Text}
  {ls : List Text}

theorem Change.isBalanced_eq (h : Change before old new after s t) :
    Brace.isBalanced t = Brace.isBalanced s := by
  rw [h.source, h.target, Brace.isBalanced, Brace.isBalanced,
    Brace.closes_insert h.free.isBalanced, Brace.closes_insert h.balanced]

/-! ### Inserted lines -/

theorem Text.Insertion.isBalanced_eq (h : Text.Insertion ls p lead indent q t t')
    (hls : Brace.isBalanced (Text.squeeze ls.flatten)) :
    Brace.isBalanced t' = Brace.isBalanced t := by
  rw [h.target, h.source, Brace.isBalanced, Brace.isBalanced,
    Brace.closes_insert (h.isBalanced_block hls)]

theorem Text.isBalanced_joinLines (hls : isBalanced (Text.squeeze ls.flatten))
    (hindent : indent.all isIndent) : isBalanced (Text.joinLines (ls.map (indent ++ ·))) := by
  rw [isBalanced, ← Text.closes_squeeze, Text.squeeze_joinLines hindent]
  exact hls

/-! ### A final line -/

theorem FinalLineStep.isBalanced_apply {s : FinalLineStep} (hs : Free s.line.trim) (t : Text)
    (sink : Sink) : isBalanced (s.apply t sink).1 = isBalanced t := by
  obtain ⟨w, hw, hblank⟩ := Text.exists_trimEnd t
  have hreplace : ∀ new, Free new → isBalanced (t.trimEnd ++ new) = isBalanced t := by
    intro new hnew
    have hchange : Change t.trimEnd w new [] t (t.trimEnd ++ new) :=
      ⟨by simpa using hw, by simp, free_of_isBlank hblank, hnew.isBalanced, Text.stops_nil⟩
    exact hchange.isBalanced_eq
  simp only [apply]
  split
  · rfl
  · split
    · next hempty =>
        rw [List.isEmpty_iff] at hempty
        rw [← hreplace (s.line.trim ++ ['\n']) (Brace.free_append.mpr ⟨hs, by decide⟩), hempty,
          List.nil_append]
    · have hnew : Free ('\n' :: '\n' :: s.line.trim ++ ['\n']) :=
        Brace.free_append.mpr ⟨Brace.free_cons.mpr ⟨by decide, Brace.free_cons.mpr
          ⟨by decide, hs⟩⟩, by decide⟩
      rw [← hreplace _ hnew]
      simp

/-! ### Fields in nested blocks -/

namespace NestedFieldsStep

variable {s : NestedFieldsStep} {f : Text × Text}

theorem isBalanced_fieldEdit (h : BlockAt s.scope t x ind gap inner b) (hparent : Free s.parent)
    (hf : Free f.1 ∧ Free f.2.trim) :
    isBalanced (s.fieldEdit (.of s.scope x ind gap) f t).text = isBalanced t := by
  rw [fieldEdit, h.edit_eq]
  rcases ensured_inner h hparent hf.1 hf.2 with ⟨hout, -, -⟩ | ⟨hout, before, old, new, after, hfill, -, -⟩
  · simp only [BlockHeader.of] at hout ⊢
    simp only [hout, BlockOutcome.changed, Bool.false_eq_true, if_false]
  · simp only [BlockHeader.of] at hout hfill ⊢
    simp only [hout, if_true]
    exact (hfill.inOpening h).toChange.isBalanced_eq

theorem isBalanced_applyFields (hparent : Free s.parent) (fields : List (Text × Text))
    (hfields : ∀ f ∈ fields, Free f.1 ∧ Free f.2.trim) (t : Text) (sink : Sink) :
    isBalanced (s.applyFields fields t sink).1 = isBalanced t := by
  induction fields generalizing t with
  | nil => rfl
  | cons f fields ih =>
      rcases find?_cases s.scope t with hnone | ⟨h, hfind, hclose⟩ | ⟨x, ind, gap, inner, b, h⟩
      · rw [applyFields, hnone]
      · rw [applyFields, hfind]
        simp only [edit_of_closeAt?_eq_none hclose]
      · have hedit := isBalanced_fieldEdit h hparent (hfields f (List.mem_cons_self ..))
        have hrest := ih (fun g hg => hfields g (List.mem_cons_of_mem _ hg))
        rw [applyFields, h.find?_eq]
        simp only
        split
        · rfl
        · rw [hrest]
          exact hedit

/-- Fields without braces leave balanced texts balanced, and the others not. -/
theorem isBalanced_apply (hparent : Free s.parent)
    (hfields : ∀ f ∈ s.fields, Free f.1 ∧ Free f.2.trim) (t : Text) (sink : Sink) :
    isBalanced (s.apply t sink).1 = isBalanced t := by
  rw [apply]
  split
  · rfl
  · exact isBalanced_applyFields hparent s.fields hfields t sink

end NestedFieldsStep

/-! ### An assignment -/

namespace BlockAssignment

variable {a : BlockAssignment}

theorem replacedLine?_eq_none (closeIndent : Text)
    (h : (a.ensureInside closeIndent inner).outcome ≠ .fieldReplaced) :
    a.replacedLine? inner = none := by
  rw [ensureInside] at h
  rw [replacedLine?]
  split
  · rfl
  · next hany =>
      rw [if_neg hany] at h
      split at h
      · exact absurd rfl h
      · next hnone => exact hnone

theorem isBalanced_create (ha : a.Proper) (hnone : BlockHeader.find? a.block t = none)
    (block : Option Text) : isBalanced (a.create block t) = isBalanced t := by
  obtain ⟨before, old, new, after, hplaced⟩ := create_placed ha hnone block
  exact hplaced.change.isBalanced_eq

/-- The edit of a closed block keeps the text balanced if and only if the line that it replaces
opens as many braces as it closes. -/
theorem isBalanced_edit_iff (ha : a.Proper) (h : BlockAt a.block t x ind gap inner b)
    (ht : isBalanced t) :
    isBalanced (Block.edit (.of a.block x ind gap) (a.ensureInside ind) t).text ↔
      ∀ line, a.replaced? t = some line → Brace.depth line = 0 := by
  have hind := h.header.allIndent
  have hrep := replaced?_of_blockAt h
  rcases ensureInside_cases a ind (Block.editable (.of a.block x ind gap) inner) with
    ⟨-, -, he⟩ | ⟨p, lead, v, q, m, hm, hl, he⟩ | ⟨-, -, he⟩
  · rw [replacedLine?_eq_none ind (by simp [he])] at hrep
    rw [h.edit_eq, hrep]
    simpa [he, BlockOutcome.changed] using ht
  · -- The line gives way to the assignment, which has no brace.
    have e : Block.editable (.of a.block x ind gap) inner = inner := by
      refine editable_of_not_isBlank _ fun hblank => hl.not_isBlank ?_
      exact isBlank_editable hind hblank
    rw [e] at he hl hm hrep
    have htext : (Block.edit (.of a.block x ind gap) (a.ensureInside ind) t).text =
        (opening x ind a.block gap ++ p) ++ (lead ++ a.field) ++ (q ++ '}' :: b) := by
      rw [h.edit_eq]
      simp [e, he, BlockOutcome.changed]
    have hsplit : t = (opening x ind a.block gap ++ p) ++ (lead ++ v) ++ (q ++ '}' :: b) := by
      rw [h.split, hl.split]
      simp
    have hnew : Free (lead ++ a.field) :=
      Brace.free_append.mpr ⟨Brace.free_of_all hl.allIndent rfl rfl, ha.solid.free⟩
    rw [hsplit] at ht
    rw [htext, hrep, hm, Option.map_some, hl.text_eq,
      Brace.isBalanced_replace_iff ht hnew.isBalanced]
    simp
  · -- A line is added.
    have hli : (ind ++ indentUnit).all isIndent := by
      rw [List.all_append, hind]
      rfl
    obtain ⟨old, hfill, -⟩ := fill_appendLine
      (trimEnd_editable (h := .of a.block x ind gap) hind inner) (Brace.free_of_all hli rfl rfl)
      ha.solid.free (Brace.free_of_all hind rfl rfl)
    rw [replacedLine?_eq_none ind (by simp [he])] at hrep
    have htext : (Block.edit (.of a.block x ind gap) (a.ensureInside ind) t).text =
        opening x ind a.block gap ++ Block.appendLine (Block.editable (.of a.block x ind gap) inner)
          (ind ++ indentUnit) a.field ind ++ '}' :: b := by
      rw [h.edit_eq]
      simp only [he, BlockOutcome.changed, if_true]
    rw [htext, (hfill.inOpening h).toChange.isBalanced_eq, hrep]
    simpa using ht

/-- An assignment keeps a text balanced if and only if the line that it replaces, if it replaces
one, opens as many braces as it closes. -/
theorem isBalanced_ensure_iff (ha : a.Proper) (block : Option Text) (ht : isBalanced t) :
    isBalanced (a.ensure block t).text ↔
      ∀ line, a.replaced? t = some line → Brace.depth line = 0 := by
  rcases find?_cases_of_isBalanced a.block ht with hnone | ⟨x, ind, gap, inner, b, h⟩
  · have hrep : a.replaced? t = none := by
      rw [replaced?, hnone]
      rfl
    rw [ensure, hnone, isBalanced_create ha hnone, hrep]
    simpa using ht
  · rw [ensure_of_blockAt h]
    exact isBalanced_edit_iff ha h ht

end BlockAssignment

/-! ### A method -/

namespace MethodStep

variable {s : MethodStep}

/-- A method that is replaced or inserted keeps a text balanced if and only if the text that it
replaces, if any, opens as many braces as it closes. -/
theorem isBalanced_apply_iff (hs : s.Proper) (ht : isBalanced t) (sink : Sink) :
    isBalanced (s.apply t sink).1 ↔
      ∀ old, s.replaced? t = some old → Brace.depth old = 0 := by
  cases hloc : s.located? t with
  | none =>
      have hkept : isBalanced (s.apply t sink).1 = isBalanced t := by
        rcases apply_of_none_cases hs hloc sink with he | ⟨v, -, ls, hls, -, p, lead, indent, q, hins⟩
        · rw [he]
        · exact hins.isBalanced_eq hls.balanced
      rw [hkept, replaced?_of_none hloc]
      simpa using ht
  | some v =>
      obtain ⟨ls, hls⟩ := hs.variants v (mem_of_located? hloc)
      obtain ⟨x, l, g, inner, b, hwhole⟩ := exists_whole_of_located? hloc hls.flat
      rw [apply_fst_of_whole hloc hls hwhole, replaced?_of_whole hloc hls.flat hwhole]
      split
      · simpa using ht
      · have hnew := Text.isBalanced_joinLines hls.balanced (all_indentAt t x.length)
        rw [hwhole.split] at ht
        rw [Brace.isBalanced_replace_iff ht hnew]
        simp

end MethodStep

end Graft
