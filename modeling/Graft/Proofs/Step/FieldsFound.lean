import Graft.Integration.Script
import Graft.Proofs.Step.Fields

/-! # Fields are found where they were put

`Block.body?` looks a block up and cuts out what lies between its braces.  A run of
`NestedFieldsStep` that leaves no diagnostic has put every field where these look-ups, from the
outer block inwards, come upon it, whatever the fields before and after it did to the text; and a
second run finds nothing to do (`NestedFieldsStep.body?_apply`). -/

namespace Graft

open Brace (Free isBalanced)

variable {t : Text}

theorem Sink.notFound_ne (sink : Sink) (platform : Platform) (code message : String) :
    sink.notFound platform code message ≠ sink := by
  intro h
  have := congrArg Sink.size h
  rw [Sink.notFound, Sink.size_push] at this
  omega

namespace NestedFieldsStep

variable {s : NestedFieldsStep} {sink : Sink}

theorem apply_of_find? (h : BlockHeader.find? s.scope t ≠ none) (sink : Sink) :
    s.apply t sink = s.applyFields s.fields t sink := by
  obtain ⟨hd, hfind⟩ := Option.ne_none_iff_exists'.mp h
  rw [apply, hfind]

theorem find?_ne_none_of_apply (h : (s.apply t sink).2 = sink) :
    BlockHeader.find? s.scope t ≠ none := by
  intro hnone
  rw [apply, hnone] at h
  exact Sink.notFound_ne _ _ _ _ h

/-- Without a diagnostic the outer block is closed, unless there are no fields. -/
theorem exists_inBlock_of_apply (h : (s.apply t sink).2 = sink) (hne : s.fields ≠ []) :
    ∃ inner, InBlock s.scope t inner := by
  rcases find?_cases s.scope t with hnone | ⟨hd, hfind, hclose⟩ | ⟨a, ind, gap, inner, b, hblock⟩
  · exact absurd hnone (find?_ne_none_of_apply h)
  · rw [apply_of_find? (find?_ne_none_of_apply h)] at h
    obtain ⟨f, fields, hfields⟩ := List.exists_cons_of_ne_nil hne
    simp only [hfields, applyFields, hfind, edit_of_closeAt?_eq_none hclose] at h
    exact absurd h (Sink.notFound_ne _ _ _ _)
  · exact ⟨inner, a, ind, gap, b, hblock⟩

/-- Without a diagnostic every field is in its blocks afterwards. -/
theorem holdsField_apply (hs : s.WellNamed) (h : (s.apply t sink).2 = sink) :
    ∀ f ∈ s.fields, s.HoldsField (s.apply t sink).1 f := by
  intro f hf
  have hblock := exists_inBlock_of_apply h (List.ne_nil_of_mem hf)
  have hnone : ∀ f ∈ ([] : List (Text × Text)), s.HoldsField t f := by simp
  rw [apply_of_find? (find?_ne_none_of_apply h)]
  exact (holds_applyFields hs (fun _ hf => hf) hnone hblock sink).1 f hf

/-- A run without a diagnostic leaves a text in which the outer block is found. -/
theorem find?_apply_ne_none (hs : s.WellNamed) (h : (s.apply t sink).2 = sink) :
    BlockHeader.find? s.scope (s.apply t sink).1 ≠ none := by
  cases hfields : s.fields with
  | nil =>
      have hfind := find?_ne_none_of_apply h
      rwa [apply_of_find? hfind, hfields, applyFields]
  | cons f fields =>
      obtain ⟨outer, ⟨a, ind, gap, b, hblock⟩, -⟩ :=
        holdsField_apply hs h f (by rw [hfields]; exact List.mem_cons_self ..)
      simp [hblock.find?_eq]

/-- After a run without a diagnostic the look-ups of the outer block, of the parent in it and of the
child in the parent lead to the field, for every field of the step; and another run changes nothing
and leaves no diagnostic. -/
theorem body?_apply (hs : s.WellNamed) (h : (s.apply t sink).2 = sink) :
    (∀ f ∈ s.fields, ∃ outer parent child,
      Block.body? s.scope (s.apply t sink).1 = some outer ∧
        Block.body? s.parent outer = some parent ∧
        Block.body? f.1 parent = some child ∧ f.2.trim <:+: child) ∧
      ∀ sink', s.apply (s.apply t sink).1 sink' = ((s.apply t sink).1, sink') := by
  have hholds := holdsField_apply hs h
  refine ⟨fun f hf => ?_, fun sink' => ?_⟩
  · obtain ⟨outer, houter, parent, hparent, child, hchild, hfield⟩ := hholds f hf
    exact ⟨outer, parent, child, Block.body?_eq_some_iff.mpr houter,
      Block.body?_eq_some_iff.mpr hparent, Block.body?_eq_some_iff.mpr hchild, hfield⟩
  · exact (apply_of_find? (find?_apply_ne_none hs h) sink').trans (applyFields_of_holds hholds sink')

/-- A step with two build types, on a script with an empty `android` block. -/
theorem body?_apply_twoBuildTypes :
    let s := Script.buildTypesStep .standard
    let t := "android \x7b\n    compileSdk 34\n\x7d\n".toList
    let o := (s.apply t .empty).1
    (s.fields.map (·.1) = ["debug".toList, "release".toList]) ∧
      (∀ f ∈ s.fields, ∃ outer parent child,
        Block.body? s.scope o = some outer ∧ Block.body? s.parent outer = some parent ∧
          Block.body? f.1 parent = some child ∧ f.2.trim <:+: child) ∧
      ∀ sink', s.apply o sink' = (o, sink') := by
  have hs : (Script.buildTypesStep .standard).WellNamed :=
    ⟨by decide +kernel, by decide +kernel, by decide +kernel, by decide +kernel⟩
  exact ⟨by decide +kernel, body?_apply hs (by decide +kernel)⟩

end NestedFieldsStep

end Graft
