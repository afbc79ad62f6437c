import Graft.Proofs.Block.AssignmentLine

/-! # What an assignment step ensures

Once the line of the assignment stands in its block, `ensure` leaves the text alone
(`ensure_of_holdsLine`).  When it changes a text, the line stands in the block afterwards, no header
line of another word comes in, and the change is clear of every word that is not part of what was
replaced (`ensure_cases`). -/

namespace Graft.BlockAssignment

open Text (AtLineStart LineEnds Stops OneLine Clear)
open Brace (Free isBalanced)
open Pattern

variable {a : BlockAssignment} {name w x ind gap b before old new after inner t : Text}

/-- The line inside the block that the edit replaces: one in a comment, or else one that assigns
another value. -/
def replacedLine? (a : BlockAssignment) (inner : Text) : Option Match :=
  if (a.active.findAll inner).any fun m => (m.text inner).trim = a.field then none
  else (a.commented.find? inner).orElse fun _ => a.active.find? inner

/-- The text that `ensure` replaces, when it replaces one. -/
def replaced? (a : BlockAssignment) (t : Text) : Option Text := do
  let h ← BlockHeader.find? a.block t
  let close ← h.closeAt? t
  let inner := Block.editable h (t.slice (h.openAt + 1) close)
  (a.replacedLine? inner).map (·.text inner)

/-! ### Inside the block -/

theorem ensureInside_of_holdsLine (ha : a.Proper) (h : a.HoldsLine inner) (closeIndent : Text) :
    a.ensureInside closeIndent inner = ⟨inner, .alreadyPresent⟩ := by
  rw [ensureInside, if_pos]
  obtain ⟨m, hm, htext⟩ := h.exists_mem ha
  exact List.any_eq_true.mpr ⟨m, hm, by simpa using htext⟩

/-- The edit finds the assignment, replaces a line, or adds one. -/
theorem ensureInside_cases (a : BlockAssignment) (closeIndent inner : Text) :
    ((∃ m ∈ a.active.findAll inner, (m.text inner).trim = a.field) ∧
        a.replacedLine? inner = none ∧
        a.ensureInside closeIndent inner = ⟨inner, .alreadyPresent⟩) ∨
      (∃ p ind v q m, a.replacedLine? inner = some m ∧ Line inner p ind v q m ∧
        a.ensureInside closeIndent inner = ⟨p ++ (ind ++ a.field) ++ q, .fieldReplaced⟩) ∨
      (a.active.find? inner = none ∧ a.replacedLine? inner = none ∧
        a.ensureInside closeIndent inner =
          ⟨Block.appendLine inner (closeIndent ++ indentUnit) a.field closeIndent,
            .fieldAdded⟩) := by
  rw [replacedLine?, ensureInside]
  by_cases hany : ((a.active.findAll inner).any fun m => (m.text inner).trim = a.field) = true
  · refine .inl ⟨?_, if_pos hany, if_pos hany⟩
    simpa using hany
  · refine .inr ?_
    rw [if_neg hany, if_neg hany]
    cases hm : (a.commented.find? inner).orElse fun _ => a.active.find? inner with
    | none =>
        refine .inr ⟨?_, rfl, rfl⟩
        cases hc : a.commented.find? inner with
        | none => rwa [hc] at hm
        | some m =>
            rw [hc] at hm
            cases hm
    | some m =>
        refine .inl ?_
        obtain ⟨p, ind, v, q, hline⟩ : ∃ p ind v q, Line inner p ind v q m := by
          cases hc : a.commented.find? inner with
          | some m' =>
              rw [hc] at hm
              obtain rfl : m' = m := Option.some.inj hm
              exact exists_line_of_find? (flat_commented a) (indented_commented a) hc
          | none =>
              rw [hc] at hm
              exact exists_line_of_find? (flat_active a) (indented_active a) hm
        have hslice : inner.slice p.length (p.length + ind.length) = ind := by
          have e := Text.slice_append p ind (v ++ q)
          rw [hline.split]
          simpa using e
        refine ⟨p, ind, v, q, m, rfl, hline, ?_⟩
        simp only [hline.group_eq, hline.start_eq, hline.stop_eq, Option.getD_some, hslice]
        rw [hline.split, Text.replaceRange_append]

theorem Line.text_eq {p ind v q : Text} {m : Match} (h : Line inner p ind v q m) :
    m.text inner = ind ++ v := by
  rw [Match.text, h.start_eq, h.stop_eq, h.split, Text.slice_append]

theorem Line.stops {p ind v q : Text} {m : Match} (h : Line inner p ind v q m) : Stops q :=
  fun c hc => .inl (h.lineEnds c hc)

theorem Line.not_isBlank {p ind v q : Text} {m : Match} (h : Line inner p ind v q m) :
    ¬Text.isBlank inner := by
  intro hblank
  have : Graft.isBlank '=' :=
    List.all_eq_true.mp hblank '=' (by rw [h.split]; simp [h.full])
  exact absurd this (by decide)

/-! ### The block and the text around it -/

theorem ensure_of_blockAt (h : BlockAt a.block t x ind gap inner b) (after : Option Text) :
    a.ensure after t = Block.edit (.of a.block x ind gap) (a.ensureInside ind) t := by
  rw [ensure, h.find?_eq]
  rfl

/-- The assignment is found where it stands. -/
theorem ensure_of_holdsLine (ha : a.Proper) (h : InBlock a.block t inner)
    (hline : a.HoldsLine inner) (after : Option Text) : a.ensure after t = ⟨t, .alreadyPresent⟩ := by
  obtain ⟨x, ind, gap, b, h⟩ := h
  rw [ensure_of_blockAt h, h.edit_eq, editable_of_not_isBlank _ (hline.not_isBlank ha),
    ensureInside_of_holdsLine ha hline]
  rfl

theorem replaced?_of_blockAt (h : BlockAt a.block t x ind gap inner b) :
    a.replaced? t = (a.replacedLine? (Block.editable (.of a.block x ind gap) inner)).map
      (·.text (Block.editable (.of a.block x ind gap) inner)) := by
  simp only [replaced?, h.find?_eq, Option.bind_eq_bind, Option.bind_some, h.closeAt?_eq, h.slice_eq]

/-- What `ensure` achieves by a change. -/
structure Placed (a : BlockAssignment) (before old new after t t' : Text) : Prop where
  change : Change before old new after t t'
  silent : ∀ n, Word n → n ≠ a.block → Silent n before new
  clear : ∀ w, Solid w → (∀ r, a.replaced? t = some r → ¬w <:+: r) → Clear w before old after
  holds : ∃ inner, InBlock a.block t' inner ∧ a.HoldsLine inner

theorem placed_of_edit (ha : a.Proper) {inner' : Text} (h : BlockAt a.block t x ind gap inner b)
    (hchange : Change before old new after inner inner') (hnew : '{' ∉ new)
    (hclear : ∀ w, Solid w → (∀ r, a.replaced? t = some r → ¬w <:+: r) →
      Clear w (opening x ind a.block gap ++ before) old (after ++ '}' :: b))
    (hline : a.HoldsLine inner') :
    a.Placed (opening x ind a.block gap ++ before) old new (after ++ '}' :: b) t
      (opening x ind a.block gap ++ inner' ++ '}' :: b) where
  change := hchange.inOpening h
  silent := fun _ _ _ => silent_of_free hnew
  clear := hclear
  holds := ⟨inner', ⟨x, ind, gap, b, h.inside hchange ha.block.free (bare_of_free hnew)⟩, hline⟩

theorem isBlank_editable {h : BlockHeader} (hind : h.indent.all isIndent)
    (hinner : Text.isBlank inner) : Text.isBlank (Block.editable h inner) := by
  rw [Block.editable]
  split
  · rw [Text.isBlank, List.all_cons, Bool.and_eq_true]
    exact ⟨by decide, isBlank_of_all_isIndent hind⟩
  · exact hinner

theorem atLineStart_or_opening {p y : Text} (hp : AtLineStart p) :
    ∀ c, ((y ++ ['{']) ++ p).getLast? = some c → c = '\n' ∨ c = '{' := by
  intro c hc
  rcases hp with rfl | hp
  · exact .inr (by simpa using hc.symm)
  · rw [List.getLast?_append, hp, Option.some_or] at hc
    exact .inl (Option.some.inj hc).symm

/-- Where a line of the block is replaced, the line of the assignment takes its place. -/
theorem exists_placed_of_line (ha : a.Proper) (h : BlockAt a.block t x ind gap inner b)
    (hfree : ∀ r, a.replaced? t = some r → Free r) {p lead v q : Text} {m : Match}
    (hm : a.replacedLine? (Block.editable (.of a.block x ind gap) inner) = some m)
    (hl : Line (Block.editable (.of a.block x ind gap) inner) p lead v q m)
    (he : a.ensureInside ind (Block.editable (.of a.block x ind gap) inner) =
      ⟨p ++ (lead ++ a.field) ++ q, .fieldReplaced⟩) :
    ∃ before old new after, a.Placed before old new after t
      (Block.edit (.of a.block x ind gap) (a.ensureInside ind) t).text := by
  have hrep := replaced?_of_blockAt h
  have e : Block.editable (.of a.block x ind gap) inner = inner := by
    refine editable_of_not_isBlank _ fun hblank => hl.not_isBlank ?_
    exact isBlank_editable h.header.allIndent hblank
  rw [e] at he hl hm hrep
  rw [hm, Option.map_some, hl.text_eq] at hrep
  have htext : (Block.edit (.of a.block x ind gap) (a.ensureInside ind) t).text =
      opening x ind a.block gap ++ (p ++ (lead ++ a.field) ++ q) ++ '}' :: b := by
    rw [h.edit_eq]
    simp only [e, he, BlockOutcome.changed, if_true]
  have hnew : Free (lead ++ a.field) :=
    Brace.free_append.mpr ⟨Brace.free_of_all hl.allIndent rfl rfl, ha.solid.free⟩
  refine ⟨opening x ind a.block gap ++ p, lead ++ v, lead ++ a.field, q ++ '}' :: b, ?_⟩
  rw [htext]
  refine placed_of_edit ha h ⟨hl.split, rfl, hfree _ hrep, hnew.isBalanced, hl.stops⟩ hnew.1 ?_
    ⟨p, lead, q, rfl, hl.lineStart, hl.lineEnds, hl.allIndent⟩
  intro w hw hnotin
  exact Text.clear_of_line hw.1 hw.2.1 (atLineStart_or_opening hl.lineStart) (hnotin _ hrep)
    (hl.stops.append (Text.stops_brace b))

/-- Where a line is added, it is the line of the assignment. -/
theorem exists_placed_of_appendLine (ha : a.Proper) (h : BlockAt a.block t x ind gap inner b)
    (he : a.ensureInside ind (Block.editable (.of a.block x ind gap) inner) =
      ⟨Block.appendLine (Block.editable (.of a.block x ind gap) inner) (ind ++ indentUnit) a.field ind,
        .fieldAdded⟩) :
    ∃ before old new after, a.Placed before old new after t
      (Block.edit (.of a.block x ind gap) (a.ensureInside ind) t).text := by
  have hind := h.header.allIndent
  have hli : (ind ++ indentUnit).all isIndent := by
    rw [List.all_append, hind]
    rfl
  obtain ⟨old, hfill, hnew⟩ := fill_appendLine
    (trimEnd_editable (h := .of a.block x ind gap) hind inner) (Brace.free_of_all hli rfl rfl)
    ha.solid.free (Brace.free_of_all hind rfl rfl)
  have htext : (Block.edit (.of a.block x ind gap) (a.ensureInside ind) t).text =
      opening x ind a.block gap ++ Block.appendLine (Block.editable (.of a.block x ind gap) inner)
        (ind ++ indentUnit) a.field ind ++ '}' :: b := by
    rw [h.edit_eq]
    simp only [he, BlockOutcome.changed, if_true]
  refine ⟨opening x ind a.block gap ++ inner.trimEnd, old,
    '\n' :: (ind ++ indentUnit) ++ a.field ++ '\n' :: ind, [] ++ '}' :: b, ?_⟩
  rw [htext]
  refine placed_of_edit ha h hfill.toChange hnew.1 (fun w hw _ => (hfill.inOpening h).clear hw)
    ⟨inner.trimEnd ++ ['\n'], ind ++ indentUnit, '\n' :: ind, ?_, Text.atLineStart_newline _,
      Text.lineEnds_newline _, hli⟩
  rw [hfill.target]
  simp

/-- An edit of a closed block leaves the text alone or places the line. -/
theorem edit_cases (ha : a.Proper) (h : BlockAt a.block t x ind gap inner b)
    (hfree : ∀ r, a.replaced? t = some r → Free r) :
    (Block.edit (.of a.block x ind gap) (a.ensureInside ind) t).text = t ∨
      ∃ before old new after, a.Placed before old new after t
        (Block.edit (.of a.block x ind gap) (a.ensureInside ind) t).text := by
  rcases ensureInside_cases a ind (Block.editable (.of a.block x ind gap) inner) with
    ⟨-, -, he⟩ | ⟨p, lead, v, q, m, hm, hl, he⟩ | ⟨-, -, he⟩
  · refine .inl ?_
    rw [h.edit_eq]
    simp only [he]
    rfl
  · exact .inr (exists_placed_of_line ha h hfree hm hl he)
  · exact .inr (exists_placed_of_appendLine ha h he)

/-! ### A block that comes into being -/

/-- The inside of a block with nothing but the assignment. -/
def body (a : BlockAssignment) : Text := '\n' :: (indentUnit ++ a.field ++ ['\n'])

theorem render_eq_body (a : BlockAssignment) :
    a.render = ([] ++ a.block ++ [' ']) ++ '{' :: a.body ++ '}' :: ['\n'] := by
  rw [render, Block.renderField, Graft.render_eq]
  simp [body]

theorem Proper.free_body (ha : a.Proper) : Free a.body :=
  Brace.free_cons.mpr ⟨by decide, free_fieldLine (by decide) ha.solid.free⟩

theorem holdsLine_body (a : BlockAssignment) : a.HoldsLine a.body :=
  ⟨['\n'], indentUnit, ['\n'], by simp [body], Text.atLineStart_newline [], Text.lineEnds_newline _,
    rfl⟩

/-- The text of the block on lines of its own, put where white space was. -/
structure New (a : BlockAssignment) (before x z old after t t' : Text) : Prop extends
    Fill before old (x ++ ([] ++ a.block ++ [' ']) ++ '{' :: a.body ++ '}' :: z) after t t' where
  freeBefore : Free x
  freeBehind : Free z
  lineStart : AtLineStart (before ++ x)

theorem New.open_notMem {z t' : Text} (h : a.New before x z old after t t') (ha : a.Proper) :
    '{' ∉ a.body ++ '}' :: z := by
  rw [List.mem_append, not_or]
  exact ⟨ha.free_body.1, by simp [h.freeBehind.1]⟩

/-- The look-up finds a block that is new. -/
theorem New.inBlock {z t' : Text} (h : a.New before x z old after t t') (ha : a.Proper)
    (hnone : BlockHeader.find? a.block t = none) : InBlock a.block t' a.body := by
  have hblock := blockAt_of_new (h.source ▸ hnone) ha.block h.stops h.freeBefore.1 h.lineStart
    (by decide : ([] : Text).all isIndent) (by decide : [' '].all isIndent)
    ha.free_body.isBalanced (silent_of_free (h.open_notMem ha))
  rw [← h.target] at hblock
  exact ⟨_, _, _, _, hblock⟩

theorem New.placed {z t' : Text} (h : a.New before x z old after t t') (ha : a.Proper)
    (hnone : BlockHeader.find? a.block t = none) :
    a.Placed before old (x ++ ([] ++ a.block ++ [' ']) ++ '{' :: a.body ++ '}' :: z) after t t' where
  change := h.toChange
  silent := fun n hn hne => by
    have := silent_of_line hn ha.block hne h.freeBefore.1 h.lineStart
      (by decide : ([] : Text).all isIndent) (by decide : [' '].all isIndent)
      (silent_of_free (h.open_notMem ha))
    simpa using this
  clear := fun w hw _ => h.clear hw
  holds := ⟨_, h.inBlock ha hnone, holdsLine_body a⟩

/-- A block that is missing goes behind a whole line, to the end, or into a blank text. -/
theorem create_cases (a : BlockAssignment) (block : Option Text) (t : Text) :
    (∃ s r, t = s ++ '\n' :: r ∧ a.create block t = s ++ '\n' :: '\n' :: a.render ++ r) ∨
      (∃ s w, t = s ++ w ∧ Text.isBlank w ∧ a.create block t = s ++ '\n' :: '\n' :: a.render) ∨
      (Text.isBlank t ∧ a.create block t = a.render) := by
  rw [create]
  split
  · next close _ =>
      rcases Text.take_nextLineStart t close with ⟨s, r, hs, hnext⟩ | hnext
      · have e : t = (s ++ ['\n']) ++ r := by simpa using hs
        refine .inl ⟨s, r, hs, ?_⟩
        simp only [hnext]
        rw [e, List.take_left, List.drop_left, List.getLast?_concat, if_pos rfl]
        simp
      · simp only [hnext, List.take_length, List.drop_length]
        cases hlast : (t.getLast? == some '\n') with
        | true =>
            obtain ⟨s, rfl⟩ := List.getLast?_eq_some_iff.mp (beq_iff_eq.mp hlast)
            refine .inl ⟨s, [], rfl, ?_⟩
            rw [if_pos (beq_iff_eq.mp hlast)]
            simp
        | false =>
            refine .inr (.inl ⟨t, [], (List.append_nil t).symm, rfl, ?_⟩)
            rw [if_neg fun h => by simp [h] at hlast]
            simp
  · obtain ⟨w, hw, hblank⟩ := Text.exists_trimEnd t
    simp only
    split
    · next hempty =>
        rw [List.isEmpty_iff.mp hempty, List.nil_append] at hw
        exact .inr (.inr ⟨hw ▸ hblank, rfl⟩)
    · exact .inr (.inl ⟨_, w, hw, hblank, rfl⟩)

theorem isBalanced_new (ha : a.Proper) {z : Text} (hx : Free x) (hz : Free z) :
    isBalanced (x ++ ([] ++ a.block ++ [' ']) ++ '{' :: a.body ++ '}' :: z) := by
  have hline : Free ([] ++ a.block ++ [' ']) := Brace.free_append.mpr ⟨ha.block.free, by decide⟩
  have := Brace.isBalanced_append (Brace.isBalanced_append (Brace.isBalanced_append
    hx.isBalanced hline.isBalanced) (Brace.isBalanced_braces ha.free_body.isBalanced)) hz.isBalanced
  simpa using this

theorem create_new (ha : a.Proper) (block : Option Text) (t : Text) :
    ∃ before x z old after, a.New before x z old after t (a.create block t) := by
  have hgap : ∀ s : Text, AtLineStart (s ++ ['\n', '\n']) := fun s =>
    (Text.atLineStart_append_iff (by simp)).mpr (.inr rfl)
  rcases create_cases a block t with ⟨s, r, rfl, e⟩ | ⟨s, w, rfl, hblank, e⟩ | ⟨hblank, e⟩
  · -- The newline of the line before goes with what follows.
    refine ⟨s, ['\n', '\n'], [], [], '\n' :: r, ⟨⟨⟨by simp, ?_, by decide,
      isBalanced_new ha (by decide) (by decide), Text.stops_newline r⟩, rfl⟩, by decide, by decide,
      hgap s⟩⟩
    rw [e, render_eq_body]
    simp
  · refine ⟨s, ['\n', '\n'], ['\n'], w, [], ⟨⟨⟨by simp, ?_, free_of_isBlank hblank,
      isBalanced_new ha (by decide) (by decide), Text.stops_nil⟩, hblank⟩, by decide, by decide,
      hgap s⟩⟩
    rw [e, render_eq_body]
    simp
  · refine ⟨[], [], ['\n'], t, [], ⟨⟨⟨by simp, ?_, free_of_isBlank hblank,
      isBalanced_new ha (by decide) (by decide), Text.stops_nil⟩, hblank⟩, by decide, by decide,
      Text.atLineStart_nil⟩⟩
    rw [e, render_eq_body]
    simp

theorem create_placed (ha : a.Proper) (hnone : BlockHeader.find? a.block t = none)
    (block : Option Text) :
    ∃ before old new after, a.Placed before old new after t (a.create block t) := by
  obtain ⟨before, x, z, old, after, hnew⟩ := create_new ha block t
  exact ⟨_, _, _, _, hnew.placed ha hnone⟩

/-- The look-up finds the block that was created, with nothing but the assignment in it. -/
theorem inBlock_create (ha : a.Proper) (hnone : BlockHeader.find? a.block t = none)
    (block : Option Text) : InBlock a.block (a.create block t) a.body := by
  obtain ⟨before, x, z, old, after, hnew⟩ := create_new ha block t
  exact hnew.inBlock ha hnone

/-- Either the text stays, or the line of the assignment is placed in its block. -/
theorem ensure_cases (ha : a.Proper) (block : Option Text) (t : Text)
    (hfree : ∀ r, a.replaced? t = some r → Free r) :
    (a.ensure block t).text = t ∨
      ∃ before old new after, a.Placed before old new after t (a.ensure block t).text := by
  rcases find?_cases a.block t with hnone | ⟨h, hfind, hclose⟩ | ⟨x, ind, gap, inner, b, h⟩
  · refine .inr ?_
    have e : (a.ensure block t).text = a.create block t := by rw [ensure, hnone]
    rw [e]
    exact create_placed ha hnone block
  · refine .inl ?_
    rw [ensure, hfind]
    simp only [edit_of_closeAt?_eq_none hclose]
  · rw [ensure_of_blockAt h]
    exact edit_cases ha h hfree

end Graft.BlockAssignment
