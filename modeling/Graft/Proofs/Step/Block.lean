import Graft.Proofs.Block.Ensure
import Graft.Step.Block

/-! # Steps that edit blocks, field by field

`NestedFieldsStep` looks its outer block up anew for each field.  Once that block has been found
closed, it stays so after every edit (`exists_blockAt_of_change`), whatever names and fields without
braces the step has: so the step can fail at its first field only, before it has changed anything
(`applyFields_of_closed`). -/

namespace Graft

open Text (AtLineStart Stops OneLine Clear Moved)
open Brace (Free isBalanced)

variable {name s t a a' a₀ ind gap inner inner' b before old new after : Text}

/-- A header line of the old text that is preferred comes before all header lines that the new text
prefers instead. -/
theorem Preferred.length_eq (hp : Preferred name (before ++ old ++ after) a)
    (hlen : a.length < before.length)
    (hat : IsHeaderAt name (before ++ new ++ after) a)
    (hp' : Preferred name (before ++ new ++ after) a') (hm : Moved before new old a' a₀)
    (h₀ : IsHeaderAt name (before ++ old ++ after) a₀) (hold : isBalanced old)
    (hnew : isBalanced new) : a' = a₀ ∧ a'.length = a.length := by
  have hd : Brace.depth a₀ = Brace.depth a' := hm.depth_eq hnew hold
  have hle : a'.length ≤ a.length ∧ a.length ≤ a₀.length := by
    rcases hp with ⟨h0, hleast⟩ | ⟨hne, hleast⟩ <;> rcases hp' with ⟨h0', hleast'⟩ | ⟨hne', hleast'⟩
    · exact ⟨hleast' a hat h0, hleast a₀ h₀ (hd.trans h0')⟩
    · exact absurd h0 (hne' a hat)
    · exact absurd (hd.trans h0') (hne a₀ h₀)
    · exact ⟨hleast' a hat, hleast a₀ h₀⟩
  rcases hm with ⟨rfl, -⟩ | ⟨z, rfl, rfl⟩
  · exact ⟨rfl, Nat.le_antisymm hle.1 hle.2⟩
  · simp only [List.length_append] at hle
    omega

/-- A closed block of a name stays one after a change inside it, even if the change brings other
blocks of that name. -/
theorem exists_blockAt_of_change (h : BlockAt name t a ind gap inner b) (hname : Free name)
    (hf : Change before old new after inner inner') :
    ∃ a' ind' gap' inner'' b', BlockAt name (opening a ind name gap ++ inner' ++ '}' :: b)
      a' ind' gap' inner'' b' := by
  obtain ⟨hs, ht, hfree, hnew, hstops⟩ := hf.inOpening h
  have hold := hfree.isBalanced
  have hlen : a.length < (opening a ind name gap ++ before).length := by
    simp only [opening, List.length_append, List.length_cons]
    omega
  have hat : HeaderAt name (opening a ind name gap ++ inner' ++ '}' :: b) a ind gap
      (inner' ++ '}' :: b) :=
    ⟨by simp [opening], h.header.lineStart, h.header.allIndent, h.header.allGap,
      h.header.indentEnds, h.header.oneLine⟩
  rcases find?_cases name (opening a ind name gap ++ inner' ++ '}' :: b) with
    hnone | ⟨h', hfind, hclose⟩ | hblock
  · exact absurd hat.isHeaderAt (find?_eq_none_iff.mp hnone a)
  · exfalso
    obtain ⟨a', ind', gap', rest', ha', hp', rfl⟩ := exists_preferred hfind
    rw [ha'.closeAt?_eq, Option.map_eq_none_iff] at hclose
    have hat' := hat.isHeaderAt
    have hp := h.preferred
    have hheader' := ha'
    rw [ht] at ha' hp' hat'
    rw [hs] at hp
    rcases ha'.cases_of_append hname hstops with ⟨z, hz, -⟩ | ⟨x, y, rfl, -, rfl⟩ | ⟨z, hz, e, hr⟩
    · -- The same header line as before.
      have h₀ : IsHeaderAt name (opening a ind name gap ++ before ++ old ++ (after ++ '}' :: b)) a' :=
        ⟨ind', gap', z ++ old ++ (after ++ '}' :: b), by rw [hz]; simp, ha'.lineStart,
          ha'.allIndent, ha'.allGap, ha'.indentEnds, ha'.oneLine⟩
      have hlen' : a'.length < (opening a ind name gap ++ before).length := by
        rw [hz]
        simp only [List.length_append, List.length_cons]
        omega
      have heq := (hp.length_eq hlen hat' hp' (.inl ⟨rfl, hlen'⟩) h₀ hold hnew).2
      obtain rfl : a' = a := List.IsPrefix.eq_of_length (List.prefix_of_prefix_length_le
        ha'.isHeaderAt.prefix hat'.prefix (Nat.le_of_eq heq)) heq
      obtain ⟨-, -, rfl⟩ := hheader'.unique hat
      rw [Brace.partner?_eq_some_iff.mpr ⟨inner', b, rfl, rfl, hf.isBalanced h.balanced⟩] at hclose
      simp at hclose
    · -- A header line in the new text, all of whose braces are closed.
      have hsome := Brace.isSome_partner?_append
        (Brace.isSome_partner?_of_closes_append (n := 0) hnew) (after ++ '}' :: b)
      rw [hclose] at hsome
      simp at hsome
    · -- A header line behind the change cannot be preferred now.
      have hl := ha'.lineStart
      rw [e, Text.atLineStart_append_iff hz] at hl
      have h₀ : IsHeaderAt name (opening a ind name gap ++ before ++ old ++ (after ++ '}' :: b))
          (opening a ind name gap ++ before ++ old ++ z) :=
        ⟨ind', gap', rest', by rw [hr]; simp, (Text.atLineStart_append_iff hz).mpr hl,
          ha'.allIndent, ha'.allGap, ha'.indentEnds, ha'.oneLine⟩
      have heq := (hp.length_eq hlen hat' hp' (.inr ⟨z, e, rfl⟩) h₀ hold hnew).2
      rw [e] at heq
      simp only [List.length_append] at heq hlen
      omega
  · exact hblock

/-! ### One field after the other -/

namespace NestedFieldsStep

/-- Whether no name and no field of a step has a brace. -/
def NoBraces (s : NestedFieldsStep) : Prop :=
  Free s.scope ∧ Free s.parent ∧ ∀ f ∈ s.fields, Free f.1 ∧ Free f.2

instance (s : NestedFieldsStep) : Decidable s.NoBraces := inferInstanceAs (Decidable (_ ∧ _))

/-- The edit for one field. -/
def fieldEdit (s : NestedFieldsStep) (h : BlockHeader) (f : Text × Text) (t : Text) : BlockEdit :=
  Block.edit h (NestedField.ensure ⟨s.parent, f.1, f.2, h.indent⟩) t

theorem ensured_inner {parent child field : Text} (h : BlockAt name t a ind gap inner b)
    (hparent : Free parent) (hchild : Free child) (hfield : Free field.trim) :
    Ensured (NestedField.newNames ⟨parent, child, field, ind⟩ inner) [parent, child] field.trim inner
      (NestedField.ensure ⟨parent, child, field, ind⟩ (Block.editable (.of name a ind gap) inner)) :=
  NestedField.ensured (f := ⟨parent, child, field, ind⟩) (h := .of name a ind gap) h.balanced
    h.header.allIndent h.header.allIndent hparent hchild hfield

/-- An edit of a closed block succeeds and leaves a closed block. -/
theorem fieldEdit_of_closed {s : NestedFieldsStep} {f : Text × Text}
    (h : BlockAt s.scope t a ind gap inner b) (hscope : Free s.scope) (hparent : Free s.parent)
    (hf : Free f.1 ∧ Free f.2) :
    (s.fieldEdit (.of s.scope a ind gap) f t).outcome ≠ .braceNotFound ∧
      ∃ a' ind' gap' inner' b', BlockAt s.scope (s.fieldEdit (.of s.scope a ind gap) f t).text
        a' ind' gap' inner' b' := by
  have hens := ensured_inner h hparent hf.1 (free_trim hf.2)
  rw [fieldEdit, h.edit_eq]
  rcases hens with ⟨hout, -, -⟩ | ⟨hout, before, old, new, after, hfill, -, -⟩
  · simp only [BlockHeader.of] at hout ⊢
    simp only [hout, BlockOutcome.changed, Bool.false_eq_true, if_false]
    exact ⟨by simp, a, ind, gap, inner, b, h⟩
  · simp only [BlockHeader.of] at hout hfill ⊢
    simp only [hout, if_true]
    refine ⟨fun he => ?_, exists_blockAt_of_change h hscope hfill.toChange⟩
    rw [he] at hout
    simp [BlockOutcome.changed] at hout

/-- With the outer block closed, going through the fields never fails. -/
theorem applyFields_of_closed {s : NestedFieldsStep} (hscope : Free s.scope)
    (hparent : Free s.parent) (fields : List (Text × Text))
    (hfields : ∀ f ∈ fields, Free f.1 ∧ Free f.2)
    (ht : ∃ a ind gap inner b, BlockAt s.scope t a ind gap inner b) :
    ∃ t', ∀ sink, s.applyFields fields t sink = (t', sink) := by
  induction fields generalizing t with
  | nil => exact ⟨t, fun _ => rfl⟩
  | cons f fields ih =>
      obtain ⟨a, ind, gap, inner, b, h⟩ := ht
      obtain ⟨hout, hclosed⟩ :=
        fieldEdit_of_closed h hscope hparent (hfields f (List.mem_cons_self ..))
      obtain ⟨t', ht'⟩ := ih (fun f hf => hfields f (List.mem_cons_of_mem _ hf)) hclosed
      refine ⟨t', fun sink => ?_⟩
      have hstep : s.applyFields (f :: fields) t sink =
          s.applyFields fields (s.fieldEdit (.of s.scope a ind gap) f t).text sink := by
        rw [applyFields, h.find?_eq]
        simp only [fieldEdit] at hout ⊢
      rw [hstep, ht']

end NestedFieldsStep

end Graft
