import Graft.Proofs.Step.Block

/-! # Fields stay

After `NestedFieldsStep` has run, either its outer block cannot be found or is not closed, or every
field is in its blocks (`settled_apply`): each edit keeps what the earlier ones brought, as long as
the names of the two outer blocks are like no other and no field has a brace (`WellNamed`).  A
settled text is left alone (`apply_of_settled`), and it stays settled under changes that bring no
header line of the blocks and are clear of the fields (`Settled.change`). -/

namespace Graft

open Text (Stops Clear)
open Brace (Free isBalanced)

variable {name w t a ind gap inner b before old new after : Text}

/-- The only block of a name. -/
theorem InBlock.eq (h : BlockAt name t a ind gap inner b) {inner' : Text}
    (h' : InBlock name t inner') : inner' = inner := by
  obtain ⟨a', ind', gap', b', h'⟩ := h'
  obtain rfl := Preferred.unique h'.header.isHeaderAt h'.preferred h.header.isHeaderAt h.preferred
  obtain ⟨rfl, rfl, -⟩ := h'.header.unique h.header
  have e := h'.closeAt?_eq.symm.trans h.closeAt?_eq
  have hlen : inner'.length = inner.length := by
    have := Option.some.inj e
    omega
  have hs := h'.split.symm.trans h.split
  rw [List.append_assoc, List.append_assoc] at hs
  exact (List.append_inj (List.append_cancel_left hs) hlen).1

/-- A field that its block holds is found there. -/
theorem ensureField_of_holds {child field : Text} (h : Holds [child] field.trim t)
    (fieldIndent headerIndent : Text) :
    Block.ensureField child field fieldIndent headerIndent t = ⟨t, .alreadyPresent⟩ := by
  obtain ⟨inner, ⟨a, ind, gap, b, h⟩, hfield⟩ := h
  rw [h.ensureField_eq, Block.addField, if_pos (Text.occursIn_iff.mpr hfield), h.split]

theorem editable_of_inBlock {h : BlockHeader} (hblock : InBlock name t inner) :
    Block.editable h t = t := by
  obtain ⟨a, ind, gap, b, hblock⟩ := hblock
  have hne : BlockHeader.find? name t ≠ none := by
    rw [hblock.find?_eq]
    simp
  exact editable_eq hne

theorem NestedField.ensure_of_holds {f : NestedField}
    (h : Holds [f.parent, f.child] f.field.trim t) : f.ensure t = ⟨t, .alreadyPresent⟩ := by
  obtain ⟨inner, ⟨a, ind, gap, b, hblock⟩, hchild⟩ := h
  have hin : Block.editable (.of f.parent a ind gap) inner = inner := by
    obtain ⟨inner', hinner', -⟩ := hchild
    exact editable_of_inBlock hinner'
  rw [ensure, Block.ensureNested, hblock.find?_eq]
  simp only [hblock.edit_eq, hin, ensureField_of_holds hchild]
  rfl

namespace NestedFieldsStep

variable {s : NestedFieldsStep} {f g : Text × Text}

/-- The names are words, those of the two outer blocks are like no other, and no field has a
brace. -/
structure WellNamed (s : NestedFieldsStep) : Prop where
  words : ∀ n ∈ s.scope :: s.parent :: s.fields.map (·.1), Word n
  outer : s.scope ≠ s.parent
  inner : ∀ f ∈ s.fields, s.scope ≠ f.1 ∧ s.parent ≠ f.1
  free : ∀ f ∈ s.fields, Free f.2

/-- The names are different words, and the fields are solid. -/
structure Proper (s : NestedFieldsStep) : Prop where
  words : ∀ n ∈ s.scope :: s.parent :: s.fields.map (·.1), Word n
  nodup : (s.scope :: s.parent :: s.fields.map (·.1)).Nodup
  solid : ∀ f ∈ s.fields, Solid f.2.trim

theorem Proper.wellNamed (hs : s.Proper) : s.WellNamed := by
  have h := hs.nodup
  simp only [List.nodup_cons, List.mem_cons, not_or] at h
  have hchild : ∀ f ∈ s.fields, f.1 ∈ s.fields.map (·.1) := fun f hf => List.mem_map_of_mem hf
  refine ⟨hs.words, h.1.1, fun f hf => ⟨?_, ?_⟩, fun f hf => ?_⟩
  · exact fun e => h.1.2 (e ▸ hchild f hf)
  · exact fun e => h.2.1 (e ▸ hchild f hf)
  · obtain ⟨v, v', e, hv, hv'⟩ := Text.exists_trim f.2
    rw [e]
    exact Brace.free_append.mpr ⟨Brace.free_append.mpr ⟨free_of_isBlank hv, (hs.solid f hf).free⟩,
      free_of_isBlank hv'⟩

/-- The blocks that a field goes into, from the outermost inwards. -/
def path (s : NestedFieldsStep) (f : Text × Text) : List Text := [s.scope, s.parent, f.1]

/-- The text holds the field in its blocks. -/
def HoldsField (s : NestedFieldsStep) (t : Text) (f : Text × Text) : Prop :=
  Holds (s.path f) f.2.trim t

theorem mem_path {n : Text} : n ∈ s.path f ↔ n = s.scope ∨ n = s.parent ∨ n = f.1 := by
  simp [path]

namespace WellNamed

variable (hs : s.WellNamed) (hf : f ∈ s.fields)

include hs

theorem word_of_mem (hf : f ∈ s.fields) : ∀ n ∈ s.path f, Word n := by
  intro n hn
  refine hs.words n ?_
  rcases mem_path.mp hn with rfl | rfl | rfl
  · exact List.mem_cons_self ..
  · exact List.mem_cons_of_mem _ (List.mem_cons_self ..)
  · exact List.mem_cons_of_mem _ (List.mem_cons_of_mem _ (List.mem_map_of_mem hf))

theorem free_scope : Free s.scope := (hs.words _ (by simp)).free

theorem free_parent : Free s.parent := (hs.words _ (by simp)).free

include hf

theorem free_child : Free f.1 := (hs.word_of_mem hf _ (by simp [path])).free

theorem free_field : Free f.2.trim := free_trim (hs.free f hf)

theorem nodup_path : (s.path f).Nodup := by
  have h := hs.inner f hf
  simp [path, hs.outer, h.1, h.2]

end WellNamed

theorem fieldEdit_ensured (hs : s.WellNamed) (hf : f ∈ s.fields)
    (h : BlockAt s.scope t a ind gap inner b) :
    Ensured (NestedField.newNames ⟨s.parent, f.1, f.2, ind⟩ inner) (s.path f) f.2.trim t
      (s.fieldEdit (.of s.scope a ind gap) f t) := by
  refine h.edit_ensured hs.free_scope (fun n hn => ?_) (ensured_inner h hs.free_parent
    (hs.free_child hf) (hs.free_field hf))
  rw [NestedField.newNames] at hn
  split at hn
  · exact hn
  · exact List.mem_cons_of_mem _ hn

/-- An edit brings a header line of the child at most, and none if the child has a field. -/
theorem fieldEdit_ensured_of_holds (hs : s.WellNamed) (hf : f ∈ s.fields)
    (h : BlockAt s.scope t a ind gap inner b) (hholds : s.HoldsField t g) :
    Ensured (if g.1 = f.1 then [] else [f.1]) (s.path f) f.2.trim t
      (s.fieldEdit (.of s.scope a ind gap) f t) := by
  obtain ⟨inner', hin, inner'', ⟨x, ind', gap', y, hparent⟩, z, ⟨_, _, _, _, hchild⟩, -⟩ := id hholds
  obtain rfl := hin.eq h
  split
  · next he =>
      have hfound : BlockHeader.find? f.1 inner'' ≠ none := by
        rw [← he, hchild.find?_eq]
        simp
      have hind := h.header.allIndent
      refine h.edit_ensured hs.free_scope (by simp) (NestedField.ensured_of_blockAt
        (f := ⟨s.parent, f.1, f.2, ind⟩) hparent hs.free_parent (by simp) ?_)
      rw [editable_eq hfound]
      exact ensureField_ensured_of_found hparent.balanced (hs.free_child hf) (hs.free_field hf)
        (NestedField.free_fieldIndent hind) hfound
  · have hnames : NestedField.newNames ⟨s.parent, f.1, f.2, ind⟩ inner' = [f.1] := by
      rw [NestedField.newNames, hparent.find?_eq]
      rfl
    have hens := fieldEdit_ensured hs hf h
    rwa [hnames] at hens

/-- After an edit the field is in its blocks. -/
theorem holdsField_fieldEdit (hs : s.WellNamed) (hf : f ∈ s.fields)
    (h : BlockAt s.scope t a ind gap inner b) :
    s.HoldsField (s.fieldEdit (.of s.scope a ind gap) f t).text f := by
  rcases fieldEdit_ensured hs hf h with ⟨-, e, hholds⟩ | ⟨-, before, old, new, after, -, -, hwords⟩
  · rw [HoldsField, e]
    exact hholds
  · exact (hwords (hs.word_of_mem hf) (hs.nodup_path hf)).2

/-- An edit keeps the fields that are in their blocks. -/
theorem HoldsField.fieldEdit (hs : s.WellNamed) (hf : f ∈ s.fields) (hg : g ∈ s.fields)
    (h : BlockAt s.scope t a ind gap inner b) (hholds : s.HoldsField t g) :
    s.HoldsField (s.fieldEdit (.of s.scope a ind gap) f t).text g := by
  rcases fieldEdit_ensured_of_holds hs hf h hholds with
    ⟨-, e, -⟩ | ⟨-, before, old, new, after, hfill, hclosing, hwords⟩
  · rwa [HoldsField, e]
  · have hsilent := (hwords (hs.word_of_mem hf) (hs.nodup_path hf)).1
    have hnot : ∀ n ∈ s.path g, n ∉ if g.1 = f.1 then [] else [f.1] := by
      intro n hn
      split
      · exact List.not_mem_nil
      · next hne =>
          rw [List.mem_singleton]
          rcases mem_path.mp hn with rfl | rfl | rfl
          · exact (hs.inner f hf).1
          · exact (hs.inner f hf).2
          · exact hne
    rw [HoldsField, hfill.target]
    rw [HoldsField, hfill.source] at hholds
    refine hholds.change_of_kept (fun n hn => (hs.word_of_mem hg n hn).free) hfill.stops hfill.free
      hfill.balanced (fun n hn p hp => hsilent n (hs.word_of_mem hg n hn) (hnot n hn) p hp)
      fun p q _ hq hin => hfill.infix_trim hclosing (hs.free_field hg) hq hin

/-- An edit keeps solid words. -/
theorem infix_fieldEdit (hs : s.WellNamed) (hf : f ∈ s.fields) (hw : Solid w)
    (h : BlockAt s.scope t a ind gap inner b) (hin : w <:+: t) :
    w <:+: (s.fieldEdit (.of s.scope a ind gap) f t).text := by
  rcases fieldEdit_ensured hs hf h with ⟨-, e, -⟩ | ⟨-, before, old, new, after, hfill, -, -⟩
  · rwa [e]
  · rw [hfill.source] at hin
    rw [hfill.target]
    exact (hfill.clear hw).kept hin

/-! ### Going through the fields -/

theorem applyFields_cons (h : BlockAt s.scope t a ind gap inner b)
    (hout : (s.fieldEdit (.of s.scope a ind gap) f t).outcome ≠ .braceNotFound)
    (fields : List (Text × Text)) (sink : Sink) :
    s.applyFields (f :: fields) t sink =
      s.applyFields fields (s.fieldEdit (.of s.scope a ind gap) f t).text sink := by
  rw [applyFields, h.find?_eq]
  simp only [fieldEdit] at hout ⊢

theorem fieldEdit_outcome (hs : s.WellNamed) (hf : f ∈ s.fields)
    (h : BlockAt s.scope t a ind gap inner b) :
    (s.fieldEdit (.of s.scope a ind gap) f t).outcome ≠ .braceNotFound := by
  intro hout
  rcases fieldEdit_ensured hs hf h with ⟨e, -⟩ | ⟨e, -⟩
  · rw [e] at hout
    simp at hout
  · rw [hout] at e
    simp [BlockOutcome.changed] at e

/-- Going through fields that are all there changes nothing. -/
theorem applyFields_of_holds {fields : List (Text × Text)}
    (h : ∀ f ∈ fields, s.HoldsField t f) (sink : Sink) :
    s.applyFields fields t sink = (t, sink) := by
  induction fields with
  | nil => rfl
  | cons f fields ih =>
      obtain ⟨inner, ⟨a, ind, gap, b, hblock⟩, hholds⟩ := h f (List.mem_cons_self ..)
      have hin : Block.editable (.of s.scope a ind gap) inner = inner := by
        obtain ⟨inner', hinner', -⟩ := hholds
        exact editable_of_inBlock hinner'
      have hedit : s.fieldEdit (.of s.scope a ind gap) f t = ⟨t, .alreadyPresent⟩ := by
        rw [fieldEdit, hblock.edit_eq, hin, NestedField.ensure_of_holds hholds]
        rfl
      rw [applyFields_cons hblock (by simp [hedit]), hedit]
      exact ih fun f hf => h f (List.mem_cons_of_mem _ hf)

/-- Going through the fields of a closed block brings all of them, and keeps those that were there
and all solid words. -/
theorem holds_applyFields (hs : s.WellNamed) {done fields : List (Text × Text)}
    (hsub : ∀ f ∈ done ++ fields, f ∈ s.fields)
    (hdone : ∀ f ∈ done, s.HoldsField t f) (ht : ∃ inner, InBlock s.scope t inner) (sink : Sink) :
    (∀ f ∈ done ++ fields, s.HoldsField (s.applyFields fields t sink).1 f) ∧
      ∀ w, Solid w → w <:+: t → w <:+: (s.applyFields fields t sink).1 := by
  induction fields generalizing t done with
  | nil =>
      rw [List.append_nil]
      exact ⟨hdone, fun _ _ hin => hin⟩
  | cons f fields ih =>
      obtain ⟨inner, a, ind, gap, b, h⟩ := ht
      have hf : f ∈ s.fields := hsub f (by simp)
      rw [applyFields_cons h (fieldEdit_outcome hs hf h)]
      have hedit := holdsField_fieldEdit hs hf h
      have hdone' : ∀ g ∈ done ++ [f],
          s.HoldsField (s.fieldEdit (.of s.scope a ind gap) f t).text g := by
        intro g hg
        rcases List.mem_append.mp hg with hg | hg
        · exact (hdone g hg).fieldEdit hs hf (hsub g (by simp [hg])) h
        · obtain rfl := List.mem_singleton.mp hg
          exact hedit
      obtain ⟨inner', hin', -⟩ := hedit
      have hassoc : done ++ f :: fields = (done ++ [f]) ++ fields := by simp
      rw [hassoc] at hsub ⊢
      obtain ⟨h1, h2⟩ := ih hsub hdone' ⟨inner', hin'⟩
      exact ⟨h1, fun w hw hin => h2 w hw (infix_fieldEdit hs hf hw h hin)⟩

/-! ### Settled texts -/

/-- The outer block is missing or not closed, or all fields are in their blocks. -/
def Settled (s : NestedFieldsStep) (t : Text) : Prop :=
  BlockHeader.find? s.scope t = none ∨
    (∃ h, BlockHeader.find? s.scope t = some h ∧ h.closeAt? t = none) ∨
    ∀ f ∈ s.fields, s.HoldsField t f

theorem applyFields_of_unclosed {h : BlockHeader} (hfind : BlockHeader.find? s.scope t = some h)
    (hclose : h.closeAt? t = none) (fields : List (Text × Text)) (sink : Sink) :
    (s.applyFields fields t sink).1 = t := by
  cases fields with
  | nil => rfl
  | cons f fields =>
      rw [applyFields, hfind]
      simp only [edit_of_closeAt?_eq_none hclose]

theorem apply_of_settled (h : s.Settled t) (sink : Sink) : (s.apply t sink).1 = t := by
  rw [apply]
  rcases h with hnone | ⟨h, hfind, hclose⟩ | hholds
  · rw [hnone]
  · rw [hfind]
    exact applyFields_of_unclosed hfind hclose _ _
  · cases BlockHeader.find? s.scope t with
    | none => rfl
    | some h => exact congrArg Prod.fst (applyFields_of_holds hholds sink)

/-- The step leaves a settled text, and keeps solid words. -/
theorem settled_apply (hs : s.Proper) (t : Text) (sink : Sink) :
    s.Settled (s.apply t sink).1 ∧ ∀ w, Solid w → w <:+: t → w <:+: (s.apply t sink).1 := by
  have hkept : s.Settled t → s.Settled (s.apply t sink).1 ∧
      ∀ w, Solid w → w <:+: t → w <:+: (s.apply t sink).1 := by
    intro h
    rw [apply_of_settled h]
    exact ⟨h, fun _ _ hin => hin⟩
  rcases find?_cases s.scope t with hnone | hunclosed | ⟨a, ind, gap, inner, b, h⟩
  · exact hkept (.inl hnone)
  · exact hkept (.inr (.inl hunclosed))
  · have hnone : ∀ f ∈ ([] : List (Text × Text)), s.HoldsField t f := by simp
    obtain ⟨h1, h2⟩ := holds_applyFields hs.wellNamed (fun f (hf : f ∈ [] ++ s.fields) => hf) hnone
      ⟨inner, a, ind, gap, b, h⟩ sink
    rw [apply, h.find?_eq]
    exact ⟨.inr (.inr h1), h2⟩

/-- A settled text stays settled under changes that leave blocks and fields alone. -/
theorem Settled.change {t' : Text} (h : s.Settled t) (hs : s.Proper)
    (hchange : Change before old new after t t')
    (hsilent : ∀ n ∈ s.scope :: s.parent :: s.fields.map (·.1), Silent n before new)
    (hclear : ∀ f ∈ s.fields, Clear f.2.trim before old after) : s.Settled t' := by
  have hscope := (hs.words s.scope (List.mem_cons_self ..)).free
  have hbare := (hsilent s.scope (List.mem_cons_self ..)).bare
  obtain ⟨rfl, rfl, hfree, hbalanced, hstops⟩ := hchange
  rcases h with hnone | ⟨h, hfind, hclose⟩ | hholds
  · exact .inl (find?_none_of_change hnone hscope hstops hbare)
  · exact .inr (.inl (unclosed_of_change hfind hclose hscope hstops hfree hbalanced hbare))
  · refine .inr (.inr fun f hf => (hholds f hf).change (fun n hn => (hs.wellNamed.word_of_mem hf n hn).free)
      hstops hfree hbalanced (fun n hn p hp => hsilent n ?_ p hp) (hclear f hf))
    simp only [path, List.mem_cons, List.not_mem_nil, or_false] at hn
    rcases hn with rfl | rfl | rfl
    · exact List.mem_cons_self ..
    · exact List.mem_cons_of_mem _ (List.mem_cons_self ..)
    · exact List.mem_cons_of_mem _ (List.mem_cons_of_mem _ (List.mem_map_of_mem hf))

end NestedFieldsStep

end Graft
