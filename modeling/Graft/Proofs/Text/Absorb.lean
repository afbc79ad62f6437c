import Graft.Proofs.Text.FullLines

/-! # One indentation after another

A text at an indentation has the lines `movedLines`: the indentation is all that these lines have in
common (`margin_map_shiftLine`), and none of them differs from its original in more than the white
space around it (`map_trim_lines_reindent`).  So the text has the full lines that it had
(`fullLines_reindent`), and another indentation replaces the first one (`reindent_absorbs`). -/

namespace Graft.Text

variable {ls : List Text} {l t i indent : Text} {width : Nat}

/-! ### Cutting a line -/

theorem trim_trimEnd (t : Text) : t.trimEnd.trim = t.trim := by
  obtain ⟨v, hv, hblank⟩ := exists_trimEnd t
  conv => rhs; rw [hv, trim_append_isBlank hblank]

theorem trim_trim (t : Text) : t.trim.trim = t.trim := by
  obtain ⟨v, v', e, hv, hv'⟩ := exists_trim t
  conv => rhs; rw [e, trim_append_isBlank hv', trim_isBlank_append hv]

theorem trim_cutIndent (h : width ≤ indentWidth l) : (cutIndent width l).trim = l.trim := by
  simp only [cutIndent]
  split
  · rw [trim_trimEnd]
    conv => rhs; rw [← List.take_append_drop (floorPos l width) l,
      trim_isBlank_append (isBlank_take_floorPos h)]
  · -- the cut falls inside a character, so the line is trimmed instead
    exact trim_trim l

theorem indentWidth_append (h : isBlank i) (r : Text) :
    indentWidth (i ++ r) = byteLength i + indentWidth r := by
  rw [indentWidth, List.takeWhile_append_of_pos (List.all_eq_true.mp h), byteLength_append]
  rfl

/-- A cut at the end of the white space that a line starts with. -/
theorem cutIndent_indentWidth (l : Text) : cutIndent (indentWidth l) l = l.trim := by
  have h := cutIndent_append (l.takeWhile Graft.isBlank) (l.dropWhile Graft.isBlank)
  rwa [List.takeWhile_append_dropWhile] at h

theorem trimEnd_trimEnd (t : Text) : t.trimEnd.trimEnd = t.trimEnd := List.rdropWhile_idempotent _ t

theorem trimEnd_cutIndent (width : Nat) (l : Text) :
    (cutIndent width l).trimEnd = cutIndent width l := by
  simp only [cutIndent]
  split
  · exact trimEnd_trimEnd _
  · exact trimEnd_trimEnd _

theorem exists_last_trimEnd (h : ¬isBlank t) :
    ∃ v c, t.trimEnd = v ++ [c] ∧ Graft.isBlank c = false := by
  have hne : t.trimEnd ≠ [] := by
    intro he
    obtain ⟨v, hv, hblank⟩ := exists_trimEnd t
    rw [he, List.nil_append] at hv
    exact h (hv ▸ hblank)
  have hlast := List.rdropWhile_last_not Graft.isBlank t hne
  exact ⟨_, _, (List.dropLast_append_getLast hne).symm, Bool.not_eq_true _ ▸ hlast⟩

theorem full_cutIndent (hl : '\n' ∉ l) (hblank : isBlank l = false) (h : width ≤ indentWidth l) :
    Full (cutIndent width l) := by
  have hcut : ¬isBlank (cutIndent width l) := by
    rw [← isBlank_trim, trim_cutIndent h, isBlank_trim, hblank]
    exact Bool.false_ne_true
  obtain ⟨v, c, hv, hc⟩ := exists_last_trimEnd hcut
  rw [trimEnd_cutIndent] at hv
  refine ⟨fun hmem => hl ((infix_of_cutIndent width l).subset hmem), ?_⟩
  rw [hv, List.getLast?_concat, Option.any_some, hc]
  rfl

/-! ### Moving a line -/

theorem trim_shiftLine (hi : isBlank i) (h : isBlank l = false → width ≤ indentWidth l) :
    (shiftLine i width l).trim = l.trim := by
  cases hl : isBlank l with
  | true => rw [shiftLine_of_isBlank hl, trim_of_isBlank hl, trim_nil]
  | false => rw [shiftLine_of_not_isBlank hl, trim_isBlank_append hi, trim_cutIndent (h hl)]

/-- A moved line is blank if the line itself is. -/
theorem isBlank_shiftLine (hi : isBlank i) (h : isBlank l = false → width ≤ indentWidth l) :
    isBlank (shiftLine i width l) = isBlank l := by
  rw [← isBlank_trim, trim_shiftLine hi h, isBlank_trim]

/-- Cutting the new indentation off a moved line leaves what the first cut has left. -/
theorem shiftLine_shiftLine (hi : isBlank i) (h : isBlank l = false → width ≤ indentWidth l)
    (j : Text) : shiftLine j (byteLength i) (shiftLine i width l) = shiftLine j width l := by
  have hblank := isBlank_shiftLine hi h
  cases hl : isBlank l with
  | true => rw [shiftLine_of_isBlank hl, shiftLine_of_isBlank hl, shiftLine_of_isBlank rfl]
  | false =>
      rw [hl] at hblank
      rw [shiftLine_of_not_isBlank hblank, shiftLine_of_not_isBlank hl, shiftLine_of_not_isBlank hl,
        cutIndent_append, trimEnd_cutIndent]

theorem bare_shiftLine (hnl : '\n' ∉ i) (hl : '\n' ∉ l)
    (h : isBlank l = false → width ≤ indentWidth l) : Bare (shiftLine i width l) := by
  cases hblank : isBlank l with
  | true =>
      rw [shiftLine_of_isBlank hblank]
      exact ⟨List.not_mem_nil, by simp⟩
  | false =>
      rw [shiftLine_of_not_isBlank hblank]
      exact ((full_cutIndent hl hblank (h hblank)).indented hnl).bare

/-! ### The margin of moved lines -/

theorem indentWidth_trim (h : ¬isBlank l) : indentWidth l.trim = 0 := by
  obtain ⟨c, r, e, hc⟩ := (tight_trim h).exists_head
  rw [e, indentWidth, List.takeWhile_cons, hc, if_neg Bool.false_ne_true, byteLength_nil]

theorem exists_margin (h : ∃ l ∈ ls, isBlank l = false) :
    ∃ l ∈ ls, isBlank l = false ∧ indentWidth l = margin ls := by
  obtain ⟨l, hl, hblank⟩ := h
  cases hmin : ((ls.filter fun l => !isBlank l).map indentWidth).min? with
  | none =>
      rw [List.min?_eq_none_iff, List.map_eq_nil_iff, List.filter_eq_nil_iff] at hmin
      have := hmin l hl
      simp [hblank] at this
  | some n =>
      obtain ⟨m, hm, hn⟩ := List.mem_map.mp (List.min?_eq_some_iff.mp hmin).1
      obtain ⟨hm, hfull⟩ := List.mem_filter.mp hm
      exact ⟨m, hm, by simpa using hfull, by rw [margin, hmin, Option.getD_some, hn]⟩

/-- Moved lines have the new indentation in common, and no more. -/
theorem margin_map_shiftLine (hi : isBlank i) (h : ∃ l ∈ ls, isBlank l = false) :
    margin (ls.map (shiftLine i (margin ls))) = byteLength i := by
  have hshift : ∀ l ∈ ls, isBlank (shiftLine i (margin ls) l) = isBlank l := fun l hl =>
    isBlank_shiftLine hi (margin_le hl)
  refine margin_eq ?_ ?_
  · -- a line with the least indentation keeps none of it
    obtain ⟨l, hl, hblank, hwidth⟩ := exists_margin h
    refine ⟨_, List.mem_map_of_mem hl, (hshift l hl).trans hblank, ?_⟩
    rw [shiftLine_of_not_isBlank hblank, indentWidth_append hi, ← hwidth, cutIndent_indentWidth,
      indentWidth_trim (by rw [hblank]; exact Bool.false_ne_true), Nat.add_zero]
  · intro m hm hblank
    obtain ⟨l, hl, rfl⟩ := List.mem_map.mp hm
    rw [hshift l hl] at hblank
    rw [shiftLine_of_not_isBlank hblank, indentWidth_append hi]
    exact Nat.le_add_right _ _

/-! ### One indentation after another -/

/-- The lines of a text at an indentation. -/
def movedLines (t indent : Text) : List Text :=
  (bodyLines t).map (shiftLine indent (margin (bodyLines t)))

theorem bare_of_mem_movedLines (hnl : '\n' ∉ i) (h : l ∈ movedLines t i) : Bare l := by
  obtain ⟨m, hm, rfl⟩ := List.mem_map.mp h
  exact bare_shiftLine hnl (newline_notMem_of_mem_lines (mem_of_mem_dropBlankEnds hm)) (margin_le hm)

theorem isBlank_movedLine (hi : isBlank i) (h : l ∈ bodyLines t) :
    isBlank (shiftLine i (margin (bodyLines t)) l) = isBlank l := isBlank_shiftLine hi (margin_le h)

theorem fullEnds_movedLines (hi : isBlank i) (t : Text) : FullEnds (movedLines t i) :=
  (fullEnds_bodyLines t).map fun _ => isBlank_movedLine hi

theorem lines_reindent (hi : isBlank i) (hnl : '\n' ∉ i) (t : Text) :
    (reindent t i).lines = movedLines t i :=
  lines_joinLines_of_bare (fun _ => bare_of_mem_movedLines hnl)
    fun e => absurd ((fullEnds_movedLines hi t).2 [] e) (by decide)

theorem bodyLines_reindent (hi : isBlank i) (hnl : '\n' ∉ i) (t : Text) :
    bodyLines (reindent t i) = movedLines t i :=
  bodyLines_joinLines (fun _ => bare_of_mem_movedLines hnl) (fullEnds_movedLines hi t)

/-- Only the last indentation of a text counts. -/
theorem movedLines_reindent (hi : isBlank i) (hnl : '\n' ∉ i) (t j : Text) :
    movedLines (reindent t i) j = movedLines t j := by
  rw [movedLines, bodyLines_reindent hi hnl]
  by_cases hfull : ∃ l ∈ bodyLines t, isBlank l = false
  · rw [movedLines, margin_map_shiftLine hi hfull, List.map_map]
    exact List.map_congr_left fun l hl => shiftLine_shiftLine hi (margin_le hl) j
  · -- a text without anything on its lines has nothing to move
    have hnil : bodyLines t = [] := by
      cases hl : bodyLines t with
      | nil => rfl
      | cons l ls =>
          have hhead := (fullEnds_bodyLines t).1 l (by rw [hl]; rfl)
          exact absurd ⟨l, by rw [hl]; exact List.mem_cons_self .., hhead⟩ hfull
    rw [movedLines, movedLines, hnil]
    rfl

/-- Every line of the text from its first to its last full one is a line at the indentation, white
space around it aside. -/
theorem map_trim_lines_reindent (hi : isBlank i) (hnl : '\n' ∉ i) (t : Text) :
    (reindent t i).lines.map trim = (dropBlankEnds t.lines).map trim := by
  rw [lines_reindent hi hnl, ← map_trim_bodyLines, movedLines, List.map_map]
  exact List.map_congr_left fun l hl => trim_shiftLine hi (margin_le hl)

/-- Moving a text to another indentation keeps its lines, blank ones aside. -/
theorem fullLines_reindent (hindent : indent.all isIndent) (t : Text) :
    fullLines (reindent t indent) = fullLines t := by
  have hblank : isBlank indent := isBlank_of_all_isIndent hindent
  rw [fullLines, map_trim_lines_reindent hblank (newline_notMem_of_all hindent),
    filter_map_trim_dropBlankEnds, fullLines]

/-- Moving a text to one indentation after another is moving it to the last one.  What a text has at
an indentation are its lines from the first to the last one with something on it, white space around
them aside, and nothing on the blank ones. -/
theorem reindent_absorbs (hi : i.all isIndent) (t j : Text) :
    reindent (reindent t i) j = reindent t j ∧
      ∃ body, FullSpan t.lines body ∧ (reindent t i).lines.map trim = body.map trim ∧
        ∀ l ∈ (reindent t i).lines, isBlank l → l = [] := by
  have hblank : isBlank i := isBlank_of_all_isIndent hi
  have hnl : '\n' ∉ i := newline_notMem_of_all hi
  refine ⟨?_, dropBlankEnds t.lines, fullSpan_dropBlankEnds _, map_trim_lines_reindent hblank hnl t,
    fun l hl hl' => ?_⟩
  · calc reindent (reindent t i) j = joinLines (movedLines (reindent t i) j) := rfl
      _ = joinLines (movedLines t j) := by rw [movedLines_reindent hblank hnl]
      _ = reindent t j := rfl
  · rw [lines_reindent hblank hnl] at hl
    obtain ⟨m, hm, rfl⟩ := List.mem_map.mp hl
    rw [isBlank_movedLine hblank hm] at hl'
    exact shiftLine_of_isBlank hl' i _

/-- The margin is two bytes here, which end inside the wide space of the first line. -/
theorem reindent_absorbs_wideSpace :
    [' ', '\t'].all isIndent ∧
      reindent (reindent "\n\u2003a \r\n\r\n  b\n  \tc\n\n".toList [' ', '\t']) [] =
        "a\n\nb\n\tc".toList ∧
      (reindent "\n\u2003a \r\n\r\n  b\n  \tc\n\n".toList [' ', '\t']).lines.map trim =
        [['a'], [], ['b'], ['c']] := by
  have hi : [' ', '\t'].all isIndent := by decide
  obtain ⟨habsorbs, body, hspan, hlines, -⟩ :=
    reindent_absorbs hi "\n\u2003a \r\n\r\n  b\n  \tc\n\n".toList []
  refine ⟨hi, habsorbs.trans (by decide), hlines.trans ?_⟩
  rw [hspan.eq_dropBlankEnds]
  decide

end Graft.Text
