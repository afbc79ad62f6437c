import Graft.Proofs.Text.Insert

/-! # Any text at another indentation

Whatever a text looks like, moving it to another indentation changes its white space only
(`squeeze_reindent`), and a word on one line occurs afterwards only if it did before
(`infix_of_reindent`). -/

namespace Graft.Text

variable {ls : List Text} {t l w indent : Text} {width : Nat}

/-! ### The lines of a text -/

theorem exists_chomp (piece : Text) : ∃ v, piece = chomp piece ++ v ∧ isBlank v := by
  unfold chomp
  split
  · next r e =>
      refine ⟨['\r', '\n'], ?_, by decide⟩
      rw [← List.reverse_reverse piece, e]
      simp
  · next r _ e =>
      refine ⟨['\n'], ?_, by decide⟩
      rw [← List.reverse_reverse piece, e, List.reverse_cons]
  · exact ⟨[], (List.append_nil piece).symm, rfl⟩

theorem infix_of_mem_lines (h : l ∈ lines t) : l <:+: t := by
  obtain ⟨piece, hpiece, rfl⟩ := List.mem_map.mp h
  obtain ⟨v, hv, -⟩ := exists_chomp piece
  have hchomp : chomp piece <+: piece := ⟨v, hv.symm⟩
  obtain ⟨ps, ps', hps⟩ := List.append_of_mem hpiece
  have hin : piece <:+: t := by
    rw [← flatten_pieces t, hps, List.flatten_append, List.flatten_cons]
    exact ⟨ps.flatten, ps'.flatten, List.append_assoc ..⟩
  exact hchomp.isInfix.trans hin

theorem mem_of_mem_dropBlankEnds (h : l ∈ dropBlankEnds ls) : l ∈ ls := by
  obtain ⟨-, before, after, hls, -, -⟩ := fullSpan_dropBlankEnds ls
  rw [hls, List.mem_append, List.mem_append]
  exact .inl (.inr h)

theorem infix_of_mem_bodyLines (h : l ∈ bodyLines t) : l <:+: t := by
  obtain ⟨s, mid, s', ht, -, -, hbody⟩ := exists_bodyLines t
  rw [hbody] at h
  exact (infix_of_mem_lines (mem_of_mem_dropBlankEnds h)).trans ⟨s, s', by rw [ht, List.append_assoc]⟩

/-! ### White space aside -/

theorem squeeze_flatten (ls : List Text) : squeeze ls.flatten = (ls.map squeeze).flatten := by
  induction ls with
  | nil => rfl
  | cons l ls ih => rw [List.flatten_cons, squeeze_append, ih, List.map_cons, List.flatten_cons]

theorem squeeze_flatten_of_isBlank (h : ∀ l ∈ ls, isBlank l) : squeeze ls.flatten = [] := by
  rw [squeeze_flatten, List.flatten_eq_nil_iff]
  intro s hs
  obtain ⟨l, hl, rfl⟩ := List.mem_map.mp hs
  exact squeeze_of_isBlank (h l hl)

theorem squeeze_trimEnd (t : Text) : squeeze t.trimEnd = squeeze t := by
  obtain ⟨v, hv, hblank⟩ := exists_trimEnd t
  conv => rhs; rw [hv, squeeze_append, squeeze_of_isBlank hblank, List.append_nil]

theorem squeeze_trim (t : Text) : squeeze t.trim = squeeze t := by
  obtain ⟨v, v', e, hv, hv'⟩ := exists_trim t
  conv => rhs; rw [e, squeeze_append, squeeze_append, squeeze_of_isBlank hv,
    squeeze_of_isBlank hv', List.append_nil, List.nil_append]

theorem squeeze_lines (t : Text) : squeeze (lines t).flatten = squeeze t := by
  have hchomp : ∀ piece, squeeze (chomp piece) = squeeze piece := by
    intro piece
    obtain ⟨v, hv, hblank⟩ := exists_chomp piece
    conv => rhs; rw [hv, squeeze_append, squeeze_of_isBlank hblank, List.append_nil]
  conv => rhs; rw [← flatten_pieces t]
  rw [lines, squeeze_flatten, squeeze_flatten, List.map_map]
  exact congrArg List.flatten (List.map_congr_left fun piece _ => hchomp piece)

theorem squeeze_dropBlankEnds (ls : List Text) :
    squeeze (dropBlankEnds ls).flatten = squeeze ls.flatten := by
  obtain ⟨-, before, after, hls, hbefore, hafter⟩ := fullSpan_dropBlankEnds ls
  conv => rhs; rw [hls, List.flatten_append, List.flatten_append, squeeze_append, squeeze_append,
    squeeze_flatten_of_isBlank hbefore, squeeze_flatten_of_isBlank hafter, List.nil_append,
    List.append_nil]

theorem squeeze_bodyLines (t : Text) : squeeze (bodyLines t).flatten = squeeze t := by
  obtain ⟨s, mid, s', ht, hs, hs', hbody⟩ := exists_bodyLines t
  rw [hbody, squeeze_dropBlankEnds, squeeze_lines]
  conv => rhs; rw [ht, squeeze_append, squeeze_append, squeeze_newlines hs, squeeze_newlines hs',
    List.nil_append, List.append_nil]

/-! ### The margin -/

theorem margin_le (hl : l ∈ ls) (hblank : isBlank l = false) : margin ls ≤ indentWidth l := by
  have hmem : indentWidth l ∈ (ls.filter fun l => !isBlank l).map indentWidth := by
    refine List.mem_map_of_mem (List.mem_filter.mpr ⟨hl, ?_⟩)
    rw [hblank]
    rfl
  unfold margin
  cases hmin : ((ls.filter fun l => !isBlank l).map indentWidth).min? with
  | none => exact Nat.zero_le _
  | some n => exact (List.min?_eq_some_iff.mp hmin).2 _ hmem

/-- The characters that fit into the bytes of white space at the start are white space. -/
theorem isBlank_take_floorPos (h : width ≤ indentWidth l) : isBlank (l.take (floorPos l width)) := by
  unfold indentWidth at h
  induction l generalizing width with
  | nil => rfl
  | cons c l ih =>
      unfold floorPos
      split
      · rfl
      · next hfit =>
          rw [List.takeWhile_cons] at h
          cases hc : Graft.isBlank c with
          | false =>
              rw [hc, if_neg Bool.false_ne_true, byteLength_nil] at h
              have := Char.utf8Size_pos c
              omega
          | true =>
              rw [hc, if_pos rfl, byteLength_cons] at h
              have hrest : isBlank (l.take (floorPos l (width - c.utf8Size))) := ih (by omega)
              rw [List.take_succ_cons]
              unfold isBlank at hrest ⊢
              rw [List.all_cons, hc, hrest]
              rfl

theorem squeeze_cutIndent (h : width ≤ indentWidth l) : squeeze (cutIndent width l) = squeeze l := by
  simp only [cutIndent]
  split
  · rw [squeeze_trimEnd]
    conv => rhs; rw [← List.take_append_drop (floorPos l width) l, squeeze_append,
      squeeze_of_isBlank (isBlank_take_floorPos h), List.nil_append]
  · exact squeeze_trim l

theorem squeeze_shiftLine (hindent : indent.all isIndent)
    (h : isBlank l = false → width ≤ indentWidth l) :
    squeeze (shiftLine indent width l) = squeeze l := by
  have hblank : isBlank indent := isBlank_of_all_isIndent hindent
  unfold shiftLine
  split
  · next hl => exact (squeeze_of_isBlank hl).symm
  · next hl =>
      rw [squeeze_append, squeeze_of_isBlank hblank, List.nil_append]
      exact squeeze_cutIndent (h (Bool.not_eq_true _ ▸ hl))

theorem squeeze_reindent (hindent : indent.all isIndent) (t : Text) :
    squeeze (reindent t indent) = squeeze t := by
  have hjoin : ∀ ls : List Text, squeeze (joinLines ls) = squeeze ls.flatten := by
    intro ls
    have : squeeze (joinLines (ls.map ([] ++ ·))) = squeeze ls.flatten := squeeze_joinLines rfl
    simpa using this
  unfold reindent
  rw [hjoin, ← squeeze_bodyLines t, squeeze_flatten, squeeze_flatten, List.map_map]
  refine congrArg List.flatten (List.map_congr_left fun l hl => ?_)
  exact squeeze_shiftLine hindent fun hblank => margin_le hl hblank

/-! ### Words -/

theorem infix_of_cutIndent (width : Nat) (l : Text) : cutIndent width l <:+: l := by
  have htrimEnd : ∀ s : Text, s.trimEnd <:+: s := by
    intro s
    obtain ⟨v, hv, -⟩ := exists_trimEnd s
    exact ⟨[], v, hv.symm⟩
  simp only [cutIndent]
  split
  · exact (htrimEnd _).trans (List.drop_suffix _ l).isInfix
  · exact (htrimEnd _).trans (List.dropWhile_suffix _).isInfix

/-- A word on one line that does not start with indentation occurs in a text at another indentation
only if it occurs in the text itself. -/
theorem infix_of_reindent {c : Char} (hnl : '\n' ∉ c :: w) (hc : isIndent c = false)
    (hindent : indent.all isIndent) (h : c :: w <:+: reindent t indent) : c :: w <:+: t := by
  obtain ⟨l', hl', hin⟩ := infix_joinLines hnl (List.cons_ne_nil c w) h
  obtain ⟨l, hl, rfl⟩ := List.mem_map.mp hl'
  unfold shiftLine at hin
  split at hin
  · simp at hin
  · have hcut := infix_of_indent hc hindent hin
    exact (hcut.trans (infix_of_cutIndent _ l)).trans (infix_of_mem_bodyLines hl)

end Graft.Text
