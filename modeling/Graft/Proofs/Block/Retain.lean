import Graft.Proofs.Block.Ensure

/-! # What an edit of blocks retains

Whatever the text, the names, the indentations and the field, an edit of blocks either leaves the
text as it is or puts new text where white space was (`Filled`, `Adds`).  `ensureField_adds`,
`ensureNested_adds` and `edit_adds` say so of the three editors, and `edits_retain` what follows for
the rest of the text: it is all there, and as deep in braces as it was (`Retains`). -/

namespace Graft

open Brace (Free isBalanced depthAt)

variable {name field s t a ind gap inner b before old new after : Text}

/-! ### Filling white space -/

/-- The text `t` is `s` with `new`, which has the field, in place of the white space `old`. -/
structure Filled (field before old new after s t : Text) : Prop where
  source : s = before ++ old ++ after
  target : t = before ++ new ++ after
  blank : Text.isBlank old
  field : field <:+: new

/-- Up to the change every position is as deep as it was. -/
theorem Filled.depthAt_before (h : Filled field before old new after s t) {n : Nat}
    (hn : n ≤ before.length) : depthAt t n = depthAt s n := by
  rw [h.source, h.target, depthAt, depthAt, List.append_assoc, List.append_assoc,
    List.take_append_of_le_length hn, List.take_append_of_le_length hn]

/-- Behind a change that brings matched braces every position is as deep as it was. -/
theorem Filled.depthAt_after (h : Filled field before old new after s t) (hnew : isBalanced new)
    (n : Nat) : depthAt t ((before ++ new).length + n) = depthAt s ((before ++ old).length + n) := by
  rw [h.source, h.target, depthAt, depthAt, List.take_length_add_append,
    List.take_length_add_append]
  simp only [Brace.depth_append, Brace.depth_of_isBalanced hnew,
    Brace.depth_of_isBalanced (free_of_isBlank h.blank).isBalanced]

theorem Filled.isBalanced_iff (h : Filled field before old new after s t)
    (hnew : isBalanced new) : isBalanced t ↔ isBalanced s := by
  rw [h.source, h.target, Brace.isBalanced, Brace.isBalanced, Brace.closes_insert hnew,
    Brace.closes_insert (free_of_isBlank h.blank).isBalanced]

/-- What is filled inside a block is filled in the whole text. -/
theorem Filled.inOpening (hf : Filled field before old new after inner s)
    (h : BlockAt name t a ind gap inner b) :
    Filled field (opening a ind name gap ++ before) old new (after ++ '}' :: b) t
      (opening a ind name gap ++ s ++ '}' :: b) where
  source := by simp [h.split, hf.source]
  target := by simp [hf.target]
  blank := hf.blank
  field := hf.field

/-- The edit of `s` leaves the text, or adds the field where white space was; with a field whose
braces match, and no braces in the other parts, it adds matched braces only. -/
def Adds (field : Text) (parts : List Text) (s : Text) (e : BlockEdit) : Prop :=
  (e.outcome.changed = false ∧ e.text = s) ∨
    (e.outcome.changed ∧ ∃ before old new after, Filled field before old new after s e.text ∧
      (isBalanced field → (∀ w ∈ parts, Free w) → isBalanced new))

theorem Adds.mono {parts parts' : List Text} {e : BlockEdit} (h : Adds field parts s e)
    (hparts : (∀ w ∈ parts', Free w) → ∀ w ∈ parts, Free w) : Adds field parts' s e := by
  refine h.imp id ?_
  rintro ⟨hout, before, old, new, after, hfilled, hnew⟩
  exact ⟨hout, before, old, new, after, hfilled, fun hfield hw => hnew hfield (hparts hw)⟩

/-! ### What the editors add -/

theorem isBalanced_trim (h : isBalanced field) : isBalanced field.trim := by
  obtain ⟨v, v', e, hv, hv'⟩ := Text.exists_trim field
  rw [e, Brace.isBalanced, ← List.append_nil v',
    ← List.append_assoc (v ++ field.trim), Brace.closes_insert (free_of_isBlank hv').isBalanced,
    List.append_nil, Brace.closes_balanced_append (free_of_isBlank hv).isBalanced] at h
  exact h

theorem isBalanced_fieldLine {indent : Text} (hind : Free indent) (hfield : isBalanced field) :
    isBalanced (indent ++ field ++ ['\n']) :=
  Brace.isBalanced_append (Brace.isBalanced_append hind.isBalanced hfield) rfl

/-- Adding a block fills the white space at the end. -/
theorem append_adds {parts : List Text} {block : Text} {outcome : BlockOutcome}
    (hout : outcome.changed) (hfield : field <:+: block)
    (hblock : isBalanced field → (∀ w ∈ parts, Free w) → isBalanced block) (s : Text) :
    Adds field parts s ⟨Block.append s block, outcome⟩ := by
  obtain ⟨old, hold, hblank⟩ := Text.exists_trimEnd s
  obtain ⟨nl, tail, he, -, hnl, htail⟩ := append_eq s block
  have hnl' : Free nl := by rcases hnl with rfl | rfl <;> decide
  refine .inr ⟨hout, s.trimEnd, old, nl ++ block ++ tail, [],
    ⟨by simpa using hold, by simpa using he, hblank, ?_⟩, fun hf hw => ?_⟩
  · exact hfield.trans ⟨nl, tail, rfl⟩
  · exact Brace.isBalanced_append (Brace.isBalanced_append hnl'.isBalanced (hblock hf hw))
      (free_of_isBlank htail).isBalanced

/-- A field is looked for in the inside of a block, or fills the white space at its end. -/
theorem addField_adds {closeIndent : Text} (hclose : Free closeIndent) (field fieldIndent : Text)
    (inner : Text) :
    Adds field.trim [fieldIndent] inner (Block.addField field fieldIndent closeIndent inner) := by
  rw [Block.addField]
  split
  · exact .inl ⟨rfl, rfl⟩
  · obtain ⟨old, hold, hblank⟩ := Text.exists_trimEnd inner
    obtain ⟨lineIndent, hli⟩ : ∃ v, (Block.memberIndent? inner).getD fieldIndent = v := ⟨_, rfl⟩
    rw [hli]
    refine .inr ⟨rfl, inner.trimEnd, old, '\n' :: lineIndent ++ field.trim ++ '\n' :: closeIndent,
      [], ⟨by simpa using hold, by simp [Block.appendLine], hblank,
        ⟨'\n' :: lineIndent, '\n' :: closeIndent, by simp⟩⟩, fun hf hw => ?_⟩
    have hfree : Free lineIndent := hli ▸ free_lineIndent (hw _ (List.mem_singleton_self _)) inner
    exact Brace.isBalanced_append (Brace.isBalanced_append
      (Brace.free_cons.mpr ⟨by decide, hfree⟩ : Free _).isBalanced hf)
      (Brace.free_cons.mpr ⟨by decide, hclose⟩ : Free _).isBalanced

/-- An edit of the inside of a block that adds a field there adds it to the text. -/
theorem edit_adds {parts : List Text} {h : BlockHeader} {f : Text → BlockEdit}
    (hfind : BlockHeader.find? name t = some h) (hf : ∀ s, Adds field parts s (f s)) :
    Adds field parts t (Block.edit h f t) := by
  rcases find?_cases name t with hnone | ⟨h', hfind', hclose⟩ | ⟨a, ind, gap, inner, b, hblock⟩
  · rw [hnone] at hfind
    cases hfind
  · obtain rfl := Option.some.inj (hfind'.symm.trans hfind)
    rw [edit_of_closeAt?_eq_none hclose]
    exact .inl ⟨rfl, rfl⟩
  · obtain rfl := Option.some.inj (hblock.find?_eq.symm.trans hfind)
    rw [hblock.edit_eq]
    rcases hf (Block.editable (.of name a ind gap) inner) with
      ⟨hout, -⟩ | ⟨hout, before, old, new, after, hfilled, hnew⟩
    · refine .inl ?_
      simp only [hout, Bool.false_eq_true, if_false]
      exact ⟨trivial, trivial⟩
    · refine .inr ?_
      simp only [hout, if_true, true_and]
      by_cases hblank : Text.isBlank inner
      · -- All the edit saw was white space, so the whole inside is what gets filled.
        have hseen : Text.isBlank (Block.editable (.of name a ind gap) inner) := by
          have hind := isBlank_of_all_isIndent hblock.header.allIndent
          rw [Block.editable]
          split
          · rw [Text.isBlank, List.all_cons, Bool.and_eq_true]
            exact ⟨by decide, hind⟩
          · exact hblank
        rw [hfilled.source, Text.isBlank_append, Text.isBlank_append] at hseen
        refine ⟨opening a ind name gap, inner, before ++ new ++ after, '}' :: b,
          ⟨hblock.split, by rw [hfilled.target], hblank, ?_⟩, fun hfield hw => ?_⟩
        · exact hfilled.field.trans ⟨before, after, rfl⟩
        · exact Brace.isBalanced_append (Brace.isBalanced_append
            (free_of_isBlank hseen.1.1).isBalanced (hnew hfield hw))
            (free_of_isBlank hseen.2).isBalanced
      · rw [editable_of_not_isBlank _ hblank] at hfilled ⊢
        exact ⟨_, old, new, _, hfilled.inOpening hblock, hnew⟩

theorem ensureField_adds (name field fieldIndent headerIndent t : Text) :
    Adds field.trim [name, fieldIndent, headerIndent] t
      (Block.ensureField name field fieldIndent headerIndent t) := by
  rcases find?_cases name t with hnone | ⟨h, hfind, hclose⟩ | ⟨a, ind, gap, inner, b, hblock⟩
  · rw [Block.ensureField, hnone]
    refine append_adds rfl ?_ (fun hf hw => ?_) t
    · exact ⟨headerIndent ++ name ++ [' ', '{', '\n'] ++ fieldIndent,
        '\n' :: headerIndent ++ ['}', '\n'], by simp [Block.renderField, Block.render]⟩
    · exact isBalanced_render (hw _ (by simp)) (hw _ (by simp))
        (isBalanced_fieldLine (hw _ (by simp)) hf)
  · rw [Block.ensureField, hfind]
    simp only [hclose]
    exact .inl ⟨rfl, rfl⟩
  · rw [hblock.ensureField_eq]
    have hfree : Free ind := Brace.free_of_all hblock.header.allIndent rfl rfl
    rcases addField_adds hfree field fieldIndent inner with
      ⟨hout, htext⟩ | ⟨hout, before, old, new, after, hfilled, hnew⟩
    · exact .inl ⟨hout, by rw [htext, ← hblock.split]⟩
    · refine .inr ⟨hout, _, old, new, _, hfilled.inOpening hblock, fun hf hw => hnew hf ?_⟩
      intro w hmem
      rw [List.mem_singleton.mp hmem]
      exact hw _ (by simp)

theorem ensureNested_adds (parent child field parentIndent childIndent fieldIndent t : Text) :
    Adds field.trim [parent, child, parentIndent, childIndent, fieldIndent] t
      (Block.ensureNested parent child field parentIndent childIndent fieldIndent t) := by
  rw [Block.ensureNested]
  cases hfind : BlockHeader.find? parent t with
  | none =>
      refine append_adds rfl ?_ (fun hf hw => ?_) t
      · exact ⟨parentIndent ++ parent ++ [' ', '{', '\n'] ++ childIndent ++ child ++
          [' ', '{', '\n'] ++ fieldIndent, '\n' :: childIndent ++ ['}', '\n'] ++ parentIndent ++
          ['}', '\n'], by simp [Block.renderField, Block.render]⟩
      · exact isBalanced_render (hw _ (by simp)) (hw _ (by simp))
          (isBalanced_render (hw _ (by simp)) (hw _ (by simp))
            (isBalanced_fieldLine (hw _ (by simp)) hf))
  | some h =>
      obtain ⟨a, ind, gap, rest, ha, -, rfl⟩ := exists_preferred hfind
      refine edit_adds hfind fun s => (ensureField_adds _ _ _ _ s).mono fun hw w hmem => ?_
      simp only [List.mem_cons, List.not_mem_nil, or_false] at hmem
      rcases hmem with rfl | rfl | rfl
      · exact hw _ (by simp)
      · exact hw _ (by simp)
      · exact Brace.free_of_all (NestedField.all_append ha.allIndent NestedField.all_indentUnit)
          rfl rfl

/-! ### What stays -/

/-- What an edit that writes the field and the other parts keeps of the text `t`. -/
structure Retains (field : Text) (parts : List Text) (t : Text) (e : BlockEdit) : Prop where
  /-- Without a change every character stays. -/
  same : e.outcome = .alreadyPresent ∨ e.outcome = .braceNotFound → e.text = t
  /-- A change puts text with the field where white space was, and what is before and after it stays
  as deep as it was. -/
  filled : e.outcome.changed → ∃ before old new after,
    Filled field.trim before old new after t e.text ∧
      (isBalanced field → (∀ w ∈ parts, Free w) →
        (∀ n ≤ before.length, depthAt e.text n = depthAt t n) ∧
          ∀ n, depthAt e.text ((before ++ new).length + n) =
            depthAt t ((before ++ old).length + n))
  balanced : isBalanced field → (∀ w ∈ parts, Free w) → (isBalanced e.text ↔ isBalanced t)

theorem Adds.retains {parts : List Text} {e : BlockEdit} (h : Adds field.trim parts t e) :
    Retains field parts t e := by
  rcases h with ⟨hout, htext⟩ | ⟨hout, before, old, new, after, hfilled, hnew⟩
  · refine ⟨fun _ => htext, fun hchanged => ?_, fun _ _ => by rw [htext]⟩
    rw [hout] at hchanged
    cases hchanged
  · refine ⟨fun hsame => ?_, fun _ => ⟨before, old, new, after, hfilled, fun hfield hw => ?_⟩,
      fun hfield hw => hfilled.isBalanced_iff (hnew (isBalanced_trim hfield) hw)⟩
    · rcases hsame with e' | e' <;> rw [e'] at hout <;> cases hout
    · exact ⟨fun n hn => hfilled.depthAt_before hn,
        hfilled.depthAt_after (hnew (isBalanced_trim hfield) hw)⟩

/-- The editors of a block, of a block in a block, and of that inside a block that was found, put
text where white space was, if they change anything, and retain the rest of the text. -/
theorem Block.edits_retain
    (name parent child field headerIndent parentIndent childIndent fieldIndent t : Text) :
    Retains field [name, fieldIndent, headerIndent] t
        (Block.ensureField name field fieldIndent headerIndent t) ∧
      Retains field [parent, child, parentIndent, childIndent, fieldIndent] t
        (Block.ensureNested parent child field parentIndent childIndent fieldIndent t) ∧
      ∀ h, BlockHeader.find? name t = some h →
        Retains field [parent, child, parentIndent, childIndent, fieldIndent] t (Block.edit h
          (Block.ensureNested parent child field parentIndent childIndent fieldIndent) t) :=
  ⟨(ensureField_adds ..).retains, (ensureNested_adds ..).retains,
    fun _ hfind => (edit_adds hfind (ensureNested_adds parent child field parentIndent childIndent
      fieldIndent)).retains⟩

/-- A build type added next to another one. -/
theorem Block.edits_retain_siblingType :
    let t := "android \x7b\n  buildTypes \x7b\n    debug \x7b\x7d\n  \x7d\n\x7d\n".toList
    let field := " minify true".toList
    let parts := ["buildTypes".toList, "release".toList, [], [], "      ".toList]
    let f := Block.ensureNested "buildTypes".toList "release".toList field [] [] "      ".toList
    ∃ h, BlockHeader.find? "android".toList t = some h ∧
      (Block.edit h f t).outcome = .blockCreated ∧
      isBalanced field ∧ (∀ w ∈ parts, Free w) ∧ Retains field parts t (Block.edit h f t) := by
  refine ⟨⟨0, [], 8⟩, by decide +kernel, by decide +kernel, by decide, by decide, ?_⟩
  exact (Block.edits_retain "android".toList _ _ _ [] _ _ _ _).2.2 _ (by decide +kernel)

end Graft
