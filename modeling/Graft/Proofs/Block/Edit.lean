import Graft.Proofs.Block.Change
import Graft.Proofs.Text.Tight

/-! # Edits of blocks

Each edit of a block that changes it puts a balanced text in place of one without braces
(`Change`), most of them where white space was (`Fill`).  `ensureField_cases` says what
`ensureField` does when, and with which text. -/

namespace Graft

open Text (AtLineStart Stops OneLine Clear Closing)
open Brace (Free isBalanced)

/-- The text `t` is `s` with the balanced text `new` in place of `old`, which has no brace and which a
newline, a closing brace or the end follows. -/
structure Change (before old new after s t : Text) : Prop where
  source : s = before ++ old ++ after
  target : t = before ++ new ++ after
  free : Free old
  balanced : isBalanced new
  stops : Stops after

/-- A change that puts a text where white space was. -/
structure Fill (before old new after s t : Text) : Prop extends
    Change before old new after s t where
  blank : Text.isBlank old

variable {name s t w a ind gap inner inner' b before old new after : Text}

theorem free_of_isBlank (h : Text.isBlank s) : Free s := Brace.free_of_all h (by decide) (by decide)

/-- A change inside a block is a change of the whole text. -/
theorem Change.inBlock (h : Change before old new after inner inner') (x b : Text) :
    Change (x ++ '{' :: before) old new (after ++ '}' :: b) (x ++ '{' :: inner ++ '}' :: b)
      (x ++ '{' :: inner' ++ '}' :: b) where
  source := by simp [h.source]
  target := by simp [h.target]
  free := h.free
  balanced := h.balanced
  stops := h.stops.append (Text.stops_brace b)

theorem Change.isBalanced (h : Change before old new after s t) (hs : isBalanced s) :
    isBalanced t := by
  rw [h.source, Brace.isBalanced, Brace.closes_insert h.free.isBalanced] at hs
  rw [h.target, Brace.isBalanced, Brace.closes_insert h.balanced]
  exact hs

/-! ### Words that stay -/

/-- A word on one line that has no brace and does not end in white space. -/
def Solid (w : Text) : Prop :=
  OneLine w ∧ '{' ∉ w ∧ w.getLast?.any fun c => !Graft.isBlank c

instance (w : Text) : Decidable (Solid w) := inferInstanceAs (Decidable (_ ∧ _))

theorem Solid.free (h : Solid w) : Free w := ⟨h.2.1, h.1.2⟩

theorem Solid.exists_last (h : Solid w) : ∃ v c, w = v ++ [c] ∧ Graft.isBlank c = false := by
  obtain ⟨-, -, h⟩ := h
  cases hlast : w.getLast? with
  | none => simp [hlast] at h
  | some c =>
      obtain ⟨v, rfl⟩ := List.getLast?_eq_some_iff.mp hlast
      exact ⟨v, c, rfl, by simpa [hlast] using h⟩

theorem Fill.clear (h : Fill before old new after s t) (hw : Solid w) :
    Clear w before old after := by
  obtain ⟨v, c, rfl, hc⟩ := hw.exists_last
  exact Text.clear_of_blank hw.1 hc h.blank h.stops

/-- Trimming leaves nothing, or a text that ends in something other than white space. -/
theorem trim_eq_nil_or (s : Text) :
    s.trim = [] ∨ ∃ v c, s.trim = v ++ [c] ∧ Graft.isBlank c = false := by
  by_cases hblank : Text.isBlank s
  · exact .inl (Text.trim_of_isBlank hblank)
  · exact .inr (Text.tight_trim hblank).exists_last

theorem free_trim {field : Text} (h : Free field) : Free field.trim := by
  obtain ⟨v, v', e, -, -⟩ := Text.exists_trim field
  rw [e, Brace.free_append, Brace.free_append] at h
  exact h.1.2

/-- Before a closing brace or the end, a trimmed text without braces outlasts the change. -/
theorem Fill.infix_trim (h : Fill before old new after s t) (hafter : Closing after)
    (hw : Free w.trim) {p q : Text} (hq : q <+: after) (hin : w.trim <:+: p ++ old ++ q) :
    w.trim <:+: p ++ new ++ q := by
  obtain ⟨r, rfl⟩ := hq
  rcases trim_eq_nil_or w with e | ⟨v, c, e, hc⟩
  · rw [e]
    exact List.nil_infix
  · rw [e] at hw hin ⊢
    exact (Text.clear_of_closing hw.2 hc h.blank hafter.left).kept hin

/-! ### Adding to the inside of a block -/

theorem isBlank_of_all {p : Char → Bool} (h : s.all p) (hp : ∀ c, p c → Graft.isBlank c) :
    Text.isBlank s := by
  rw [Text.isBlank, List.all_eq_true]
  exact fun c hc => hp c (List.all_eq_true.mp h c hc)

theorem isBlank_of_all_isIndent (h : s.all isIndent) : Text.isBlank s :=
  isBlank_of_all h fun _ => isBlank_of_isIndent

theorem editable_of_not_isBlank (h : BlockHeader) (hs : ¬Text.isBlank s) :
    Block.editable h s = s := by
  simp [Block.editable, hs]

/-- What an edit sees of the inside of a block is the same but for white space. -/
theorem trimEnd_editable {h : BlockHeader} (hind : h.indent.all isIndent) (s : Text) :
    (Block.editable h s).trimEnd = s.trimEnd := by
  rw [Block.editable]
  split
  · next hblank =>
      rw [Bool.and_eq_true] at hblank
      have hind' : Text.isBlank ('\n' :: h.indent) := by
        have := isBlank_of_all_isIndent hind
        rw [Text.isBlank, List.all_cons, Bool.and_eq_true]
        exact ⟨by decide, this⟩
      rw [Text.trimEnd_of_isBlank hind', Text.trimEnd_of_isBlank hblank.1]
  · rfl

/-- A block is added as lines of its own, behind what is not white space. -/
theorem append_eq (s block : Text) :
    ∃ nl tail, Block.append s block = s.trimEnd ++ (nl ++ block ++ tail) ∧
      AtLineStart (s.trimEnd ++ nl) ∧ (nl = [] ∨ nl = ['\n']) ∧ Text.isBlank tail := by
  obtain ⟨w, hw, hblank⟩ := Text.exists_trimEnd s
  have hdrop : s.drop s.trimEnd.length = w := by
    have := congrArg (List.drop s.trimEnd.length) hw
    rwa [List.drop_left] at this
  have hdropped : ∀ n, Text.isBlank (w.drop n) := fun n => by
    rw [Text.isBlank, List.all_eq_true]
    exact fun c hc => List.all_eq_true.mp hblank c (List.mem_of_mem_drop hc)
  refine ⟨if !s.trimEnd.isEmpty || s.contains '\n' then ['\n'] else [],
    if w.contains '\n' then w.drop (w.lineStart w.length) else [], ?_, ?_, ?_, ?_⟩
  · rw [Block.append, hdrop, List.append_assoc, List.append_assoc, List.append_assoc]
  · split
    · exact Text.atLineStart_newline _
    · next h =>
        rw [Bool.or_eq_true, not_or, Bool.not_eq_true', Bool.not_eq_false, List.isEmpty_iff] at h
        rw [h.1]
        exact Text.atLineStart_nil
  · split
    · exact .inr rfl
    · exact .inl rfl
  · split
    · exact hdropped _
    · rfl

/-! ### Edits inside a block -/

/-- What stands before the inside of a block. -/
def opening (a ind name gap : Text) : Text := a ++ (ind ++ name ++ gap) ++ ['{']

theorem BlockAt.split (h : BlockAt name t a ind gap inner b) :
    t = opening a ind name gap ++ inner ++ '}' :: b := by
  rw [h.header.split, opening]
  simp

theorem BlockAt.slice_eq (h : BlockAt name t a ind gap inner b) :
    t.slice ((BlockHeader.of name a ind gap).openAt + 1)
      ((a ++ (ind ++ name ++ gap)).length + 1 + inner.length) = inner := by
  have e := Text.slice_append (opening a ind name gap) inner ('}' :: b)
  rw [← h.split] at e
  simpa [opening, BlockHeader.of, Nat.add_assoc] using e

theorem BlockAt.replaceRange_eq (h : BlockAt name t a ind gap inner b) (new : Text) :
    t.replaceRange ((BlockHeader.of name a ind gap).openAt + 1)
      ((a ++ (ind ++ name ++ gap)).length + 1 + inner.length) new =
      opening a ind name gap ++ new ++ '}' :: b := by
  have e := Text.replaceRange_append (opening a ind name gap) inner ('}' :: b) new
  rw [← h.split] at e
  rw [← e]
  simp [opening, BlockHeader.of, Nat.add_assoc]

/-- An edit of a closed block sees what lies in it, and changes nothing else. -/
theorem BlockAt.edit_eq (h : BlockAt name t a ind gap inner b) (f : Text → BlockEdit) :
    Block.edit (.of name a ind gap) f t =
      let e := f (Block.editable (.of name a ind gap) inner)
      if e.outcome.changed then ⟨opening a ind name gap ++ e.text ++ '}' :: b, e.outcome⟩
      else ⟨t, e.outcome⟩ := by
  rw [Block.edit, h.closeAt?_eq]
  simp only [h.slice_eq, h.replaceRange_eq]

theorem edit_of_closeAt?_eq_none {h : BlockHeader} (hclose : h.closeAt? t = none)
    (f : Text → BlockEdit) : Block.edit h f t = ⟨t, .braceNotFound⟩ := by
  rw [Block.edit, hclose]

/-- In a balanced text every header line opens a block. -/
theorem find?_cases_of_isBalanced (name : Text) (ht : isBalanced t) :
    BlockHeader.find? name t = none ∨ ∃ a ind gap inner b, BlockAt name t a ind gap inner b := by
  rcases find?_cases name t with h | ⟨h, hfind, hclose⟩ | h
  · exact .inl h
  · obtain ⟨a, ind, gap, rest, ha, -, rfl⟩ := exists_preferred hfind
    rw [ha.split] at ht
    have hsome := Brace.isSome_partner?_of_closes_append ht
    rw [ha.closeAt?_eq, Option.map_eq_none_iff] at hclose
    rw [hclose] at hsome
    simp at hsome
  · exact .inr h

/-! ### What lies in a block -/

/-- What lies between the braces of the block that the name finds. -/
def Block.body? (name t : Text) : Option Text := do
  let h ← BlockHeader.find? name t
  let close ← h.closeAt? t
  return t.slice (h.openAt + 1) close

theorem Block.body?_eq_some_iff : Block.body? name t = some inner ↔ InBlock name t inner := by
  constructor
  · intro h
    rcases find?_cases name t with hnone | ⟨hd, hfind, hclose⟩ | ⟨a, ind, gap, inner', b, hblock⟩
    · simp [Block.body?, hnone] at h
    · simp [Block.body?, hfind, hclose] at h
    · simp only [Block.body?, hblock.find?_eq, hblock.closeAt?_eq, Option.bind_eq_bind,
        Option.bind_some, Option.pure_def, hblock.slice_eq, Option.some.injEq] at h
      exact h ▸ ⟨a, ind, gap, b, hblock⟩
  · rintro ⟨a, ind, gap, b, hblock⟩
    simp only [Block.body?, hblock.find?_eq, hblock.closeAt?_eq, Option.bind_eq_bind,
      Option.bind_some, Option.pure_def, hblock.slice_eq]

/-! ### Fields -/

/-- The inside of a block after a field was looked for in it, and added if need be. -/
def Block.addField (field fieldIndent closeIndent inner : Text) : BlockEdit :=
  if field.trim.occursIn inner then ⟨inner, .alreadyPresent⟩
  else ⟨appendLine inner ((memberIndent? inner).getD fieldIndent) field.trim closeIndent,
    .fieldAdded⟩

/-- A block that is closed gets the field inside, and the rest of the text stays. -/
theorem BlockAt.ensureField_eq (h : BlockAt name t a ind gap inner b)
    (field fieldIndent headerIndent : Text) :
    Block.ensureField name field fieldIndent headerIndent t =
      ⟨opening a ind name gap ++ (Block.addField field fieldIndent ind inner).text ++ '}' :: b,
        (Block.addField field fieldIndent ind inner).outcome⟩ := by
  rw [Block.ensureField, h.find?_eq, Block.addField]
  simp only [h.closeAt?_eq, h.slice_eq, h.replaceRange_eq]
  split
  · rw [← h.split]
  · rfl

/-- Either the block is missing and comes into being at the end, or it holds the field, or the field
becomes its last line. -/
theorem ensureField_cases (name field fieldIndent headerIndent : Text) (ht : isBalanced t) :
    (BlockHeader.find? name t = none ∧
      Block.ensureField name field fieldIndent headerIndent t =
        ⟨Block.append t (Block.renderField headerIndent name fieldIndent field.trim),
          .blockCreated⟩) ∨
      ∃ a ind gap inner b, BlockAt name t a ind gap inner b ∧
        ((field.trim <:+: inner ∧
          Block.ensureField name field fieldIndent headerIndent t = ⟨t, .alreadyPresent⟩) ∨
        (¬field.trim <:+: inner ∧
          ∃ lineIndent, lineIndent = (Block.memberIndent? inner).getD fieldIndent ∧
            Block.ensureField name field fieldIndent headerIndent t =
              ⟨opening a ind name gap ++ Block.appendLine inner lineIndent field.trim ind ++
                '}' :: b, .fieldAdded⟩)) := by
  rcases find?_cases_of_isBalanced name ht with hnone | ⟨a, ind, gap, inner, b, hblock⟩
  · refine .inl ⟨hnone, ?_⟩
    rw [Block.ensureField, hnone]
  · refine .inr ⟨a, ind, gap, inner, b, hblock, ?_⟩
    rw [hblock.ensureField_eq, Block.addField]
    by_cases hfield : field.trim <:+: inner
    · refine .inl ⟨hfield, ?_⟩
      rw [if_pos (Text.occursIn_iff.mpr hfield), hblock.split]
    · refine .inr ⟨hfield, _, rfl, ?_⟩
      rw [if_neg (fun h => hfield (Text.occursIn_iff.mp h))]

end Graft
