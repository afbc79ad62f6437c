import Graft.Proofs.Block.Ensure

/-! # Fields of two blocks

`ensureField` on one block moves the text behind the closing brace of that block, and nothing else
that the look-up of another block goes by.  `BlockAt.ahead` and `BlockAt.behind` say so of a change
on either side of a block, and `Block.ensureField_comm` that the fields of two blocks that lie apart
can be ensured in any order. -/

namespace Graft

open Text (Stops)
open Brace (Free isBalanced)

variable {name s t a a' ind gap ind' gap' inner inner' x x' y y' z before old new after : Text}

/-! ### A change beside a block -/

/-- A block stays as it is if a text changes behind it. -/
theorem BlockAt.ahead (h : BlockAt name (before ++ old ++ after) x ind gap inner y)
    (hbefore : before = opening x ind name gap ++ inner ++ '}' :: z) (hname : Free name)
    (hafter : Stops after) (hold : Free old) (hnew : isBalanced new)
    (hbare : Bare name before new) :
    BlockAt name (before ++ new ++ after) x ind gap inner (z ++ new ++ after) := by
  refine ⟨⟨by simp [hbefore, opening], h.header.lineStart, h.header.allIndent, h.header.allGap,
    h.header.indentEnds, h.header.oneLine⟩, h.balanced, ?_⟩
  refine h.preferred.moved (.inl ⟨rfl, ?_⟩) hname hafter hold.isBalanced hnew hbare
  simp only [hbefore, opening, List.length_append, List.length_cons]
  omega

/-- A block moves as it is if a text changes before it. -/
theorem BlockAt.behind (h : BlockAt name (before ++ old ++ after) (before ++ old ++ z) ind gap
      inner y)
    (hz : z ≠ []) (hname : Free name) (hafter : Stops after) (hold : Free old)
    (hnew : isBalanced new) (hbare : Bare name before new) :
    BlockAt name (before ++ new ++ after) (before ++ new ++ z) ind gap inner y := by
  have hsplit : after = z ++ (ind ++ name ++ gap) ++ '{' :: (inner ++ '}' :: y) := by
    have e := h.header.split
    simp only [List.append_assoc, List.append_cancel_left_eq] at e
    simp [e]
  have hline := h.header.lineStart
  rw [Text.atLineStart_append_iff hz] at hline
  exact ⟨⟨by simp [hsplit], (Text.atLineStart_append_iff hz).mpr hline, h.header.allIndent,
    h.header.allGap, h.header.indentEnds, h.header.oneLine⟩, h.balanced,
    h.preferred.moved (.inr ⟨z, rfl, rfl⟩) hname hafter hold.isBalanced hnew hbare⟩

/-! ### Two blocks -/

/-- The block that the look-up finds, if the search for its closing brace finds that. -/
theorem exists_blockAt_of_closeAt? {h : BlockHeader} {close : Nat}
    (hfind : BlockHeader.find? name t = some h) (hclose : h.closeAt? t = some close) :
    ∃ x ind gap inner y, BlockAt name t x ind gap inner y ∧ h = .of name x ind gap ∧
      close = (opening x ind name gap ++ inner).length := by
  rcases find?_cases name t with hnone | ⟨h', hfind', hopen⟩ | ⟨x, ind, gap, inner, y, hblock⟩
  · rw [hnone] at hfind
    cases hfind
  · obtain rfl := Option.some.inj (hfind'.symm.trans hfind)
    rw [hopen] at hclose
    cases hclose
  · obtain rfl := Option.some.inj (hblock.find?_eq.symm.trans hfind)
    refine ⟨x, ind, gap, inner, y, hblock, rfl, ?_⟩
    rw [hblock.closeAt?_eq] at hclose
    rw [← Option.some.inj hclose, opening]
    simp only [List.length_append, List.length_cons, List.length_nil]

/-- A block whose opening brace is behind the closing brace of another one lies behind it. -/
theorem BlockAt.exists_between (h : BlockAt a t x ind gap inner y)
    (h' : BlockAt a' t x' ind' gap' inner' y') (hname : Free a')
    (hbehind : (opening x ind a gap ++ inner).length < (x' ++ (ind' ++ a' ++ gap')).length) :
    ∃ z, x' = opening x ind a gap ++ inner ++ '}' :: z ∧
      y = z ++ (ind' ++ a' ++ gap') ++ '{' :: (inner' ++ '}' :: y') := by
  have hhead := h'.header
  rw [h.split, ← List.append_nil (opening x ind a gap ++ inner)] at hhead
  rcases hhead.cases_of_append hname (Text.stops_brace y) with
    ⟨z, hz, -⟩ | ⟨u, v, huv, -⟩ | ⟨z, hne, hx, hy⟩
  · rw [hz] at hbehind
    simp only [List.length_append, List.length_cons] at hbehind
    omega
  · simp at huv
  · obtain ⟨c, z, rfl⟩ := List.exists_cons_of_ne_nil hne
    obtain ⟨rfl, hy⟩ := List.cons.inj hy
    exact ⟨z, by simpa using hx, by simpa using hy⟩

/-! ### Two edits -/

/-- Two edits lead to one text in either order, and each has the outcome that it has alone. -/
structure Commute (e e' : Text → BlockEdit) (t : Text) : Prop where
  text : (e' (e t).text).text = (e (e' t).text).text
  outcome : (e (e' t).text).outcome = (e t).outcome
  outcome' : (e' (e t).text).outcome = (e' t).outcome

theorem Commute.symm {e e' : Text → BlockEdit} (h : Commute e e' t) : Commute e' e t :=
  ⟨h.text.symm, h.outcome', h.outcome⟩

/-- The inside of a block keeps its text, or gets a text without braces where white space was. -/
def FreelyFilled (inner inner' : Text) : Prop :=
  inner' = inner ∨ ∃ before old new after, Fill before old new after inner inner' ∧ Free new

theorem freelyFilled_addField {field fieldIndent closeIndent : Text} (hfield : Free field)
    (hfi : Free fieldIndent) (hci : Free closeIndent) (inner : Text) :
    FreelyFilled inner (Block.addField field fieldIndent closeIndent inner).text := by
  rw [Block.addField]
  split
  · exact .inl rfl
  · obtain ⟨old, hfill, hfree⟩ := fill_appendLine (s := inner) rfl (free_lineIndent hfi inner)
      (free_trim hfield) hci
    exact .inr ⟨_, old, _, _, hfill, hfree⟩

/-- The later of two blocks after an edit of the earlier one. -/
theorem BlockAt.later {u : Text} (h : BlockAt a t x ind gap inner y)
    (h' : BlockAt a' t (opening x ind a gap ++ inner ++ '}' :: z) ind' gap' inner' y')
    (hname : Free a') (hu : FreelyFilled inner u) :
    BlockAt a' (opening x ind a gap ++ u ++ '}' :: y) (opening x ind a gap ++ u ++ '}' :: z) ind'
      gap' inner' y' := by
  rcases hu with rfl | ⟨before, old, new, after, hfill, hfree⟩
  · rwa [← h.split]
  · have hsource : BlockAt a' ((opening x ind a gap ++ before) ++ old ++ (after ++ '}' :: y))
        ((opening x ind a gap ++ before) ++ old ++ (after ++ '}' :: z)) ind' gap' inner' y' := by
      rw [h.split, hfill.source] at h'
      simpa using h'
    have hmoved := hsource.behind (by simp) hname (hfill.stops.append (Text.stops_brace y))
      hfill.free hfill.balanced (bare_of_free hfree.1)
    rw [hfill.target]
    simpa using hmoved

/-- The earlier of two blocks after an edit of the later one. -/
theorem BlockAt.earlier {v : Text} (h : BlockAt a t x ind gap inner y)
    (h' : BlockAt a' t (opening x ind a gap ++ inner ++ '}' :: z) ind' gap' inner' y')
    (hname : Free a) (hv : FreelyFilled inner' v) :
    BlockAt a (opening (opening x ind a gap ++ inner ++ '}' :: z) ind' a' gap' ++ v ++ '}' :: y')
      x ind gap inner (z ++ (ind' ++ a' ++ gap') ++ '{' :: (v ++ '}' :: y')) := by
  rcases hv with rfl | ⟨before, old, new, after, hfill, hfree⟩
  · have hy : y = z ++ (ind' ++ a' ++ gap') ++ '{' :: (v ++ '}' :: y') := by
      have e := h.split.symm.trans h'.split
      simpa [opening] using e
    rwa [← h'.split, ← hy]
  · have hsource : BlockAt a ((opening (opening x ind a gap ++ inner ++ '}' :: z) ind' a' gap' ++
        before) ++ old ++ (after ++ '}' :: y')) x ind gap inner y := by
      rw [h'.split, hfill.source] at h
      simpa using h
    have hbefore : opening (opening x ind a gap ++ inner ++ '}' :: z) ind' a' gap' ++ before =
        opening x ind a gap ++ inner ++ '}' :: (z ++ (ind' ++ a' ++ gap') ++ '{' :: before) := by
      simp [opening]
    have hmoved := hsource.ahead hbefore hname (hfill.stops.append (Text.stops_brace y'))
      hfill.free hfill.balanced (bare_of_free hfree.1)
    rw [hfill.target]
    simpa using hmoved

section

variable {field field' fieldIndent fieldIndent' : Text} (ha : Free a) (ha' : Free a')
  (hfield : Free field) (hfield' : Free field') (hfi : fieldIndent.all isIndent)
  (hfi' : fieldIndent'.all isIndent)

include ha ha' hfield hfield' hfi hfi'

theorem ensureField_comm_of_before (h : BlockAt a t x ind gap inner y)
    (h' : BlockAt a' t x' ind' gap' inner' y')
    (hbehind : (opening x ind a gap ++ inner).length < (x' ++ (ind' ++ a' ++ gap')).length)
    (headerIndent headerIndent' : Text) :
    Commute (Block.ensureField a field fieldIndent headerIndent)
      (Block.ensureField a' field' fieldIndent' headerIndent') t := by
  obtain ⟨z, rfl, -⟩ := h.exists_between h' ha' hbehind
  have hu := freelyFilled_addField hfield (Brace.free_of_all hfi rfl rfl)
    (Brace.free_of_all h.header.allIndent rfl rfl) inner
  have hv := freelyFilled_addField hfield' (Brace.free_of_all hfi' rfl rfl)
    (Brace.free_of_all h'.header.allIndent rfl rfl) inner'
  have hlater := h.later h' ha' hu
  have hearlier := h.earlier h' ha hv
  refine ⟨?_, ?_, ?_⟩
  · rw [h.ensureField_eq, hlater.ensureField_eq, h'.ensureField_eq, hearlier.ensureField_eq]
    simp [opening]
  · rw [h'.ensureField_eq, hearlier.ensureField_eq, h.ensureField_eq]
  · rw [h.ensureField_eq, hlater.ensureField_eq, h'.ensureField_eq]

/-- The fields of two closed blocks that lie apart can be ensured in any order. -/
theorem Block.ensureField_comm {h h' : BlockHeader} {close close' : Nat}
    (hfind : BlockHeader.find? a t = some h) (hclose : h.closeAt? t = some close)
    (hfind' : BlockHeader.find? a' t = some h') (hclose' : h'.closeAt? t = some close')
    (hapart : close < h'.openAt ∨ close' < h.openAt) (headerIndent headerIndent' : Text) :
    Commute (Block.ensureField a field fieldIndent headerIndent)
      (Block.ensureField a' field' fieldIndent' headerIndent') t := by
  obtain ⟨x, ind, gap, inner, y, hblock, rfl, rfl⟩ := exists_blockAt_of_closeAt? hfind hclose
  obtain ⟨x', ind', gap', inner', y', hblock', rfl, rfl⟩ :=
    exists_blockAt_of_closeAt? hfind' hclose'
  rcases hapart with hlt | hlt
  · exact ensureField_comm_of_before ha ha' hfield hfield' hfi hfi' hblock hblock' hlt _ _
  · exact (ensureField_comm_of_before ha' ha hfield' hfield hfi' hfi hblock' hblock hlt _ _).symm

end

/-- A block in another one, and a block before that, which the look-up of the inner one sees too. -/
theorem Block.ensureField_comm_nestedTypes :
    let t := "dependencies \x7b\n\x7d\nandroid \x7b\n  release \x7b\x7d\n\x7d\n".toList
    let e := Block.ensureField "dependencies".toList "core".toList "  ".toList []
    let e' := Block.ensureField "release".toList "minify true".toList "    ".toList []
    (e t).outcome = .fieldAdded ∧ (e' t).outcome = .fieldAdded ∧ Commute e e' t := by
  intro t e e'
  have hfind : BlockHeader.find? "dependencies".toList t = some ⟨0, [], 13⟩ := by decide +kernel
  have hclose : (⟨0, [], 13⟩ : BlockHeader).closeAt? t = some 15 := by decide +kernel
  have hfind' : BlockHeader.find? "release".toList t = some ⟨27, "  ".toList, 37⟩ := by
    decide +kernel
  have hclose' : (⟨27, "  ".toList, 37⟩ : BlockHeader).closeAt? t = some 38 := by decide +kernel
  exact ⟨by decide +kernel, by decide +kernel, Block.ensureField_comm (by decide) (by decide)
    (by decide) (by decide) (by decide) (by decide) hfind hclose hfind' hclose' (by decide) [] []⟩

end Graft
