import Graft.Proofs.Block.Word

/-! # What an edit of blocks ensures

`Ensured names path field s e` says what an edit `e` of the text `s` is to achieve: either the text
holds the field in the blocks of the path and stays as it is, or a balanced text goes in where white
space was before a closing brace or the end, after which the text holds the field, and which brings
no header lines but those of `names`.  `ensureField_ensured` and `NestedField.ensured` prove it of
the two editors, and `BlockAt.edit_ensured` carries it from the inside of a block to the whole
text. -/

namespace Graft

open Text (AtLineStart Stops OneLine Clear Closing)
open Brace (Free isBalanced)

variable {name n s t a ind gap inner b before old new after field : Text}

/-- What an edit achieves; the parts about header lines are for paths of different words. -/
def Ensured (names path : List Text) (field s : Text) (e : BlockEdit) : Prop :=
  (e.outcome = .alreadyPresent ∧ e.text = s ∧ Holds path field s) ∨
    (e.outcome.changed ∧ ∃ before old new after, Fill before old new after s e.text ∧
      Closing after ∧ ((∀ n ∈ path, Word n) → path.Nodup →
        (∀ n, Word n → n ∉ names → Silent n before new) ∧ Holds path field e.text))

theorem Ensured.mono {names names' path : List Text} {e : BlockEdit}
    (h : Ensured names path field s e) (hsub : ∀ n ∈ names, n ∈ names') :
    Ensured names' path field s e := by
  refine h.imp id ?_
  rintro ⟨hout, before, old, new, after, hfill, hclosing, hwords⟩
  refine ⟨hout, before, old, new, after, hfill, hclosing, fun hpath hnodup => ?_⟩
  obtain ⟨hsilent, hholds⟩ := hwords hpath hnodup
  exact ⟨fun n hn hnot => hsilent n hn fun hmem => hnot (hsub n hmem), hholds⟩

/-! ### Rendered blocks -/

theorem render_eq (indent name body : Text) :
    Block.render indent name body =
      (indent ++ name ++ [' ']) ++ '{' :: ('\n' :: body ++ indent) ++ '}' :: ['\n'] := by
  simp [Block.render]

theorem isBalanced_render {indent body : Text} (hind : Free indent) (hname : Free name)
    (hbody : isBalanced body) : isBalanced (Block.render indent name body) := by
  have hin : isBalanced ('\n' :: body ++ indent) :=
    Brace.isBalanced_append (Brace.isBalanced_append (s := ['\n']) rfl hbody) hind.isBalanced
  have hline : isBalanced (indent ++ name ++ [' ']) :=
    (Brace.free_append.mpr ⟨Brace.free_append.mpr ⟨hind, hname⟩, by decide⟩).isBalanced
  have h := Brace.isBalanced_append (Brace.isBalanced_append hline (Brace.isBalanced_braces hin))
    (t := ['\n']) rfl
  rw [render_eq]
  simpa using h

theorem free_fieldLine {indent : Text} (hind : Free indent) (hfield : Free field) :
    Free (indent ++ field ++ ['\n']) :=
  Brace.free_append.mpr ⟨Brace.free_append.mpr ⟨hind, hfield⟩, by decide⟩

theorem isBalanced_renderField {indent fieldIndent : Text} (hind : Free indent)
    (hname : Free name) (hfi : Free fieldIndent) (hfield : Free field) :
    isBalanced (Block.renderField indent name fieldIndent field) :=
  isBalanced_render hind hname (free_fieldLine hfi hfield).isBalanced

/-! ### Adding at the end -/

/-- Adding a block at the end of a text that is `inner` but for white space at its end. -/
theorem fill_append {block : Text} (hs : s.trimEnd = inner.trimEnd) (hblock : isBalanced block) :
    ∃ nl tail old, Fill inner.trimEnd old (nl ++ block ++ tail) [] inner (Block.append s block) ∧
      AtLineStart (inner.trimEnd ++ nl) ∧ Free nl ∧ Free tail := by
  obtain ⟨old, hold, hblank⟩ := Text.exists_trimEnd inner
  obtain ⟨nl, tail, he, hline, hnl, htail⟩ := append_eq s block
  rw [hs] at he hline
  have hnl' : Free nl := by rcases hnl with rfl | rfl <;> decide
  have htail' := free_of_isBlank htail
  refine ⟨nl, tail, old, ⟨⟨by simpa using hold, by simpa using he, free_of_isBlank hblank, ?_,
    Text.stops_nil⟩, hblank⟩, hline, hnl', htail'⟩
  exact Brace.isBalanced_append (Brace.isBalanced_append hnl'.isBalanced hblock) htail'.isBalanced

/-- Adding a line at the end of a text that is `inner` but for white space at its end. -/
theorem fill_appendLine {lineIndent closeIndent : Text} (hs : s.trimEnd = inner.trimEnd)
    (hli : Free lineIndent) (hfield : Free field) (hci : Free closeIndent) :
    ∃ old, Fill inner.trimEnd old ('\n' :: lineIndent ++ field ++ '\n' :: closeIndent) [] inner
        (Block.appendLine s lineIndent field closeIndent) ∧
      Free ('\n' :: lineIndent ++ field ++ '\n' :: closeIndent) := by
  obtain ⟨old, hold, hblank⟩ := Text.exists_trimEnd inner
  have hfree : Free ('\n' :: lineIndent ++ field ++ '\n' :: closeIndent) :=
    Brace.free_append.mpr ⟨Brace.free_append.mpr ⟨Brace.free_cons.mpr ⟨by decide, hli⟩, hfield⟩,
      Brace.free_cons.mpr ⟨by decide, hci⟩⟩
  refine ⟨old, ⟨⟨by simpa using hold, ?_, free_of_isBlank hblank, hfree.isBalanced,
    Text.stops_nil⟩, hblank⟩, hfree⟩
  rw [Block.appendLine, hs]
  simp

/-! ### What an edit sees -/

theorem find?_eq_none_of_free (h : '{' ∉ t) : BlockHeader.find? name t = none := by
  rw [find?_eq_none_iff]
  rintro a ⟨ind, gap, rest, ha⟩
  rw [ha.split] at h
  simp at h

theorem find?_editable (h : BlockHeader) (hind : h.indent.all isIndent) (name inner : Text) :
    BlockHeader.find? name (Block.editable h inner) = BlockHeader.find? name inner := by
  rw [Block.editable]
  split
  · next hblank =>
      rw [Bool.and_eq_true] at hblank
      have hfree : '{' ∉ '\n' :: h.indent :=
        (Brace.free_cons.mpr ⟨by decide, Brace.free_of_all hind rfl rfl⟩ : Free _).1
      rw [find?_eq_none_of_free hfree, find?_eq_none_of_free (free_of_isBlank hblank.1).1]
  · rfl

theorem editable_eq {h : BlockHeader} (hne : BlockHeader.find? name inner ≠ none) :
    Block.editable h inner = inner := by
  refine editable_of_not_isBlank h fun hblank => hne ?_
  exact find?_eq_none_of_free (free_of_isBlank hblank).1

/-! ### Edits inside a block -/

theorem BlockAt.inside {inner' : Text} (h : BlockAt name t a ind gap inner b)
    (hf : Change before old new after inner inner') (hname : Free name)
    (hbare : Bare name (opening a ind name gap ++ before) new) :
    BlockAt name (opening a ind name gap ++ inner' ++ '}' :: b) a ind gap inner' b := by
  have hp := h.preferred
  have hs : t = (opening a ind name gap ++ before) ++ old ++ (after ++ '}' :: b) := by
    rw [h.split, hf.source]
    simp
  have ht : opening a ind name gap ++ inner' ++ '}' :: b =
      (opening a ind name gap ++ before) ++ new ++ (after ++ '}' :: b) := by
    rw [hf.target]
    simp
  have hlen : a.length < (opening a ind name gap ++ before).length := by
    simp only [opening, List.length_append, List.length_cons]
    omega
  rw [hs] at hp
  refine ⟨⟨by simp [opening], h.header.lineStart, h.header.allIndent, h.header.allGap,
    h.header.indentEnds, h.header.oneLine⟩, hf.isBalanced h.balanced, ?_⟩
  rw [ht]
  exact hp.moved (.inl ⟨rfl, hlen⟩) hname (hf.stops.append (Text.stops_brace b))
    hf.free.isBalanced hf.balanced hbare

theorem Change.inOpening {inner' : Text} (hf : Change before old new after inner inner')
    (h : BlockAt name t a ind gap inner b) :
    Change (opening a ind name gap ++ before) old new (after ++ '}' :: b) t
      (opening a ind name gap ++ inner' ++ '}' :: b) := by
  have := hf.inBlock (a ++ (ind ++ name ++ gap)) b
  rw [h.split, opening]
  simpa using this

theorem Fill.inOpening {inner' : Text} (hf : Fill before old new after inner inner')
    (h : BlockAt name t a ind gap inner b) :
    Fill (opening a ind name gap ++ before) old new (after ++ '}' :: b) t
      (opening a ind name gap ++ inner' ++ '}' :: b) :=
  ⟨hf.toChange.inOpening h, hf.blank⟩

theorem BlockAt.edit_ensured {names path : List Text} {f : Text → BlockEdit}
    (h : BlockAt name t a ind gap inner b) (hname : Free name)
    (hsub : ∀ n ∈ names, n ∈ path)
    (hf : Ensured names path field inner (f (Block.editable (.of name a ind gap) inner))) :
    Ensured names (name :: path) field t (Block.edit (.of name a ind gap) f t) := by
  rw [h.edit_eq]
  rcases hf with ⟨hout, -, hholds⟩ | ⟨hout, before, old, new, after, hfill, hclosing, hwords⟩
  · refine .inl ?_
    simp only [hout, BlockOutcome.changed, Bool.false_eq_true, if_false]
    exact ⟨trivial, trivial, inner, ⟨a, ind, gap, b, h⟩, hholds⟩
  · refine .inr ?_
    simp only [hout, if_true]
    refine ⟨trivial, _, old, new, _, hfill.inOpening h, hclosing.append (Text.closing_brace b),
      fun hpath hnodup => ?_⟩
    rw [List.nodup_cons] at hnodup
    obtain ⟨hsilent, hholds⟩ :=
      hwords (fun n hn => hpath n (List.mem_cons_of_mem _ hn)) hnodup.2
    have hopening : ∀ n, Word n → n ∉ names →
        Silent n (opening a ind name gap ++ before) new := by
      intro n hn hmem
      have := (hsilent n hn hmem).inBlock hn.free (a ++ (ind ++ name ++ gap))
      simpa [opening] using this
    have hself := hopening name (hpath name (List.mem_cons_self ..))
      fun hmem => hnodup.1 (hsub name hmem)
    exact ⟨hopening, _, ⟨a, ind, gap, b, h.inside hfill.toChange hname hself.bare⟩, hholds⟩

/-! ### Fields -/

theorem free_leadingIndent (t : Text) : Free t.leadingIndent :=
  Brace.free_of_all (all_leadingIndent t) rfl rfl

theorem free_lineIndent {fieldIndent : Text} (hfi : Free fieldIndent) (inner : Text) :
    Free ((Block.memberIndent? inner).getD fieldIndent) := by
  rw [Block.memberIndent?]
  cases Text.lastFullLine? ((inner.dropWhile (· ≠ '\n')).drop 1) with
  | none => exact hfi
  | some line => exact free_leadingIndent line

/-- The field as the only line of a block. -/
theorem infix_fieldLine (fieldIndent field indent : Text) :
    field <:+: '\n' :: (fieldIndent ++ field ++ ['\n']) ++ indent :=
  ⟨'\n' :: fieldIndent, '\n' :: indent, by simp⟩

theorem render_split (x indent name body z : Text) :
    x ++ Block.render indent name body ++ z =
      x ++ (indent ++ name ++ [' ']) ++ '{' :: ('\n' :: body ++ indent) ++ '}' :: ('\n' :: z) := by
  rw [render_eq]
  simp

section renderField

variable {x z m indent fieldIndent : Text} (hm : Word m) (hx : '{' ∉ x) (hz : '{' ∉ z)
  (hline : AtLineStart (before ++ x)) (hind : indent.all isIndent) (hfi : Free fieldIndent)
  (hfield : Free field)

include hind hfi hfield

theorem free_fieldBody : Free ('\n' :: (fieldIndent ++ field ++ ['\n']) ++ indent) :=
  Brace.free_append.mpr ⟨Brace.free_cons.mpr ⟨by decide, free_fieldLine hfi hfield⟩,
    Brace.free_of_all hind rfl rfl⟩

include hz in
theorem open_notMem_fieldRest :
    '{' ∉ '\n' :: (fieldIndent ++ field ++ ['\n']) ++ indent ++ '}' :: ('\n' :: z) := by
  rw [List.mem_append, not_or]
  exact ⟨(free_fieldBody hind hfi hfield).1, by simp [hz]⟩

include hm hx hz hline

/-- A rendered block of another name brings no header line. -/
theorem silent_renderField (hn : Word n) (hne : n ≠ m) :
    Silent n before (x ++ Block.renderField indent m fieldIndent field ++ z) := by
  rw [Block.renderField, render_split, List.append_assoc, List.cons_append]
  exact silent_of_line hn hm hne hx hline hind rfl
    (silent_of_free (open_notMem_fieldRest hz hind hfi hfield))

/-- A rendered block is found where there was none of its name. -/
theorem blockAt_renderField (hnone : BlockHeader.find? m (before ++ old ++ after) = none)
    (hafter : Stops after) :
    BlockAt m (before ++ (x ++ Block.renderField indent m fieldIndent field ++ z) ++ after)
      (before ++ x) indent [' '] ('\n' :: (fieldIndent ++ field ++ ['\n']) ++ indent)
      ('\n' :: z ++ after) := by
  rw [Block.renderField, render_split]
  exact blockAt_of_new hnone hm hafter hx hline hind rfl
    (free_fieldBody hind hfi hfield).isBalanced
    (silent_of_free (open_notMem_fieldRest hz hind hfi hfield))

end renderField

/-- A block that is found has the field, or gets it as its last line. -/
theorem ensureField_ensured_of_found {fieldIndent headerIndent : Text} (hin : isBalanced inner)
    (hname : Free name) (hfield : Free field.trim) (hfi : Free fieldIndent)
    (hfound : BlockHeader.find? name inner ≠ none) :
    Ensured [] [name] field.trim inner
      (Block.ensureField name field fieldIndent headerIndent inner) := by
  rcases ensureField_cases name field fieldIndent headerIndent hin with
    ⟨hnone, -⟩ | ⟨a, ind, gap, inner', b, hblock, ⟨hhas, he⟩ | ⟨-, lineIndent, hli, he⟩⟩
  · exact absurd hnone hfound
  · rw [he]
    exact .inl ⟨rfl, rfl, inner', ⟨a, ind, gap, b, hblock⟩, hhas⟩
  · obtain ⟨old, hfill, hfree⟩ := fill_appendLine (s := inner') rfl
      (hli ▸ free_lineIndent hfi inner' : Free lineIndent) hfield
      (Brace.free_of_all hblock.header.allIndent rfl rfl : Free ind)
    rw [he]
    refine .inr ⟨rfl, _, old, _, _, hfill.inOpening hblock,
      Text.closing_nil.append (Text.closing_brace b), fun _ _ => ⟨fun n _ _ =>
        silent_of_free hfree.1, _, ⟨a, ind, gap, b, hblock.inside hfill.toChange hname
          (bare_of_free hfree.1)⟩, ?_⟩⟩
    rw [hfill.target]
    exact ⟨inner'.trimEnd ++ '\n' :: lineIndent, '\n' :: ind, by simp⟩

theorem ensureField_ensured {h : BlockHeader} {fieldIndent headerIndent : Text}
    (hin : isBalanced inner) (hind : h.indent.all isIndent) (hname : Free name)
    (hfield : Free field.trim) (hfi : Free fieldIndent) (hhi : headerIndent.all isIndent) :
    Ensured [name] [name] field.trim inner
      (Block.ensureField name field fieldIndent headerIndent (Block.editable h inner)) := by
  by_cases hnone : BlockHeader.find? name inner = none
  · -- The block comes into being.
    have he : Block.ensureField name field fieldIndent headerIndent (Block.editable h inner) =
        ⟨Block.append (Block.editable h inner)
          (Block.renderField headerIndent name fieldIndent field.trim), .blockCreated⟩ := by
      rw [Block.ensureField, find?_editable h hind, hnone]
    have hhi' : Free headerIndent := Brace.free_of_all hhi rfl rfl
    obtain ⟨nl, tail, old, hfill, hline, hnl, htail⟩ :=
      fill_append (trimEnd_editable hind inner) (isBalanced_renderField hhi' hname hfi hfield)
    rw [he]
    refine .inr ⟨rfl, _, old, _, [], hfill, Text.closing_nil, fun hwords _ => ?_⟩
    have hword := hwords name (List.mem_singleton_self name)
    refine ⟨fun n hn hne => ?_, ?_⟩
    · exact silent_renderField hword hnl.1 htail.1 hline hhi hfi hfield hn
        fun e => hne (List.mem_singleton.mpr e)
    · have hb := blockAt_renderField hword hnl.1 htail.1 hline hhi hfi hfield
        (hfill.source ▸ hnone) Text.stops_nil
      rw [← hfill.target] at hb
      exact ⟨_, ⟨_, _, _, _, hb⟩, infix_fieldLine _ _ _⟩
  · rw [editable_eq hnone]
    exact (ensureField_ensured_of_found hin hname hfield hfi hnone).mono (by simp)

/-! ### Fields two blocks deep -/

namespace NestedField

variable {f : NestedField}

/-- The names of the header lines that an edit may bring. -/
def newNames (f : NestedField) (inner : Text) : List Text :=
  if (BlockHeader.find? f.parent inner).isNone then [f.parent, f.child] else [f.child]

theorem all_indentUnit : indentUnit.all isIndent := rfl

theorem all_append {s t : Text} (hs : s.all isIndent) (ht : t.all isIndent) :
    (s ++ t).all isIndent := by
  rw [List.all_append, hs, ht]
  rfl

theorem free_fieldIndent (hbase : f.baseIndent.all isIndent) : Free f.fieldIndent :=
  Brace.free_of_all (all_append (all_append (all_append hbase all_indentUnit) all_indentUnit)
    all_indentUnit) rfl rfl

/-- What is ensured of the child in a parent that is there. -/
theorem ensured_of_blockAt {h : BlockHeader} {inner inner' : Text} {names : List Text}
    (hblock : BlockAt f.parent inner a ind gap inner' b) (hparent : Free f.parent)
    (hsub : ∀ n ∈ names, n ∈ [f.child])
    (hf : Ensured names [f.child] f.field.trim inner' (Block.ensureField f.child f.field
      f.fieldIndent (ind ++ indentUnit) (Block.editable (.of f.parent a ind gap) inner'))) :
    Ensured names [f.parent, f.child] f.field.trim inner (f.ensure (Block.editable h inner)) := by
  have e : Block.editable h inner = inner :=
    editable_eq (by rw [hblock.find?_eq]; simp)
  have he : f.ensure (Block.editable h inner) = Block.edit (.of f.parent a ind gap)
      (Block.ensureField f.child f.field f.fieldIndent (ind ++ indentUnit)) inner := by
    rw [e, ensure, Block.ensureNested, hblock.find?_eq]
    rfl
  rw [he]
  exact hblock.edit_ensured hparent hsub hf

/-- What is ensured where no parent is there: parent, child and field come into being together. -/
theorem ensured_of_absent {h : BlockHeader} {inner : Text} (hind : h.indent.all isIndent)
    (hbase : f.baseIndent.all isIndent) (hparent : Free f.parent) (hchild : Free f.child)
    (hfield : Free f.field.trim) (hnone : BlockHeader.find? f.parent inner = none) :
    Ensured [f.parent, f.child] [f.parent, f.child] f.field.trim inner
      (f.ensure (Block.editable h inner)) := by
  have hpi : f.parentIndent.all isIndent := all_append hbase all_indentUnit
  have hci : f.childIndent.all isIndent := all_append hpi all_indentUnit
  have hfi : Free f.fieldIndent := free_fieldIndent hbase
  have he : f.ensure (Block.editable h inner) =
      ⟨Block.append (Block.editable h inner) (Block.render f.parentIndent f.parent
        (Block.renderField f.childIndent f.child f.fieldIndent f.field.trim)),
        .parentCreated⟩ := by
    rw [ensure, Block.ensureNested, find?_editable h hind, hnone]
  have hchildBlock := isBalanced_renderField (Brace.free_of_all hci rfl rfl) hchild hfi hfield
  have hbody : isBalanced ('\n' :: Block.renderField f.childIndent f.child f.fieldIndent
      f.field.trim ++ f.parentIndent) :=
    Brace.isBalanced_append (Brace.isBalanced_append (s := ['\n']) rfl hchildBlock)
      (Brace.free_of_all hpi rfl rfl : Free _).isBalanced
  obtain ⟨nl, tail, old, hfill, hline, hnl, htail⟩ :=
    fill_append (trimEnd_editable hind inner)
      (isBalanced_render (Brace.free_of_all hpi rfl rfl) hparent hchildBlock)
  rw [he]
  refine .inr ⟨rfl, _, old, _, [], hfill, Text.closing_nil, fun hwords hnodup => ?_⟩
  have hwparent := hwords f.parent (by simp)
  have hwchild := hwords f.child (by simp)
  have hne : f.parent ≠ f.child := by simpa using hnodup
  have hpi' : '{' ∉ f.parentIndent := (Brace.free_of_all hpi rfl rfl).1
  have hinside : ∀ n x, Word n → n ≠ f.child → Silent n x
      ('\n' :: Block.renderField f.childIndent f.child f.fieldIndent f.field.trim ++
        f.parentIndent ++ '}' :: ('\n' :: tail)) := by
    intro n x hn hnchild
    have hs := silent_renderField (x := ['\n']) (z := f.parentIndent ++ '}' :: ('\n' :: tail))
      hwchild (by decide) (by simp [hpi', htail.1]) (Text.atLineStart_newline x) hci hfi hfield
      hn hnchild
    simpa using hs
  refine ⟨fun n hn hmem => ?_, ?_⟩
  · -- No other name comes in.
    rw [render_split, List.append_assoc, List.cons_append]
    simp only [List.mem_cons, List.not_mem_nil, or_false, not_or] at hmem
    exact silent_of_line hn hwparent hmem.1 hnl.1 hline hpi rfl (hinside n _ hn hmem.2)
  · -- The parent is found, the child in it, and the field in the child.
    have hb := blockAt_of_new (z := '\n' :: tail) (hfill.source ▸ hnone) hwparent Text.stops_nil
      hnl.1 hline hpi (by decide : [' '].all isIndent) hbody (hinside f.parent _ hwparent hne)
    rw [← render_split, ← hfill.target] at hb
    have hnochild : BlockHeader.find? f.child ([] ++ [] ++ []) = none :=
      find?_eq_none_of_free List.not_mem_nil
    have hc := blockAt_renderField (x := ['\n']) hwchild (by decide) hpi'
      (Text.atLineStart_newline []) hci hfi hfield hnochild Text.stops_nil
    exact ⟨_, ⟨_, _, _, _, hb⟩, _, ⟨_, _, _, _, by simpa using hc⟩, infix_fieldLine _ _ _⟩

theorem ensured {h : BlockHeader} {inner : Text} (hin : isBalanced inner)
    (hind : h.indent.all isIndent) (hbase : f.baseIndent.all isIndent) (hparent : Free f.parent)
    (hchild : Free f.child) (hfield : Free f.field.trim) :
    Ensured (f.newNames inner) [f.parent, f.child] f.field.trim inner
      (f.ensure (Block.editable h inner)) := by
  rcases find?_cases_of_isBalanced f.parent hin with hnone | ⟨a, ind, gap, inner', b, hblock⟩
  · have hnames : f.newNames inner = [f.parent, f.child] := by rw [newNames, hnone]; rfl
    rw [hnames]
    exact ensured_of_absent hind hbase hparent hchild hfield hnone
  · have hnames : f.newNames inner = [f.child] := by rw [newNames, hblock.find?_eq]; rfl
    have hind' := hblock.header.allIndent
    rw [hnames]
    exact ensured_of_blockAt hblock hparent (by simp) (ensureField_ensured hblock.balanced hind'
      hchild hfield (free_fieldIndent hbase) (all_append hind' all_indentUnit))

end NestedField

end Graft
