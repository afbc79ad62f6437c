import Graft.Proofs.Text.Shift

/-! # What survives another indentation

A text at another indentation holds every word on one line that the text holds, when the word starts
and ends with something other than white space (`infix_reindent`).  The text itself, white space around
it aside, survives every indentation exactly when it is one line (`trim_reindent_iff`): a text of
several lines has a long indentation inside it afterwards. -/

namespace Graft.Text

variable {ls : List Text} {a b l t v w indent : Text} {width : Nat}

/-! ### Tight words -/

theorem Tight.ne_nil (h : Tight w) : w ≠ [] := by
  obtain ⟨c, v, rfl, -⟩ := h.exists_head
  exact List.cons_ne_nil c v

theorem Tight.not_isBlank (h : Tight w) : ¬isBlank w := by
  obtain ⟨c, v, rfl, hc⟩ := h.exists_head
  simp [isBlank, hc]

theorem not_isBlank_of_holds (hw : ¬isBlank w) (h : w <:+: t) : isBlank t = false := by
  rw [← Bool.not_eq_true]
  intro ht
  refine hw (List.all_eq_true.mpr fun c hc => ?_)
  exact List.all_eq_true.mp ht c (h.subset hc)

theorem isBlank_of_squeeze_eq_nil (h : squeeze t = []) : isBlank t := by
  unfold isBlank
  rw [List.all_eq_true]
  intro c hc
  simpa using List.filter_eq_nil_iff.mp h c hc

/-- White space before a text is no part of a tight word. -/
theorem Tight.infix_of_blank_append (hw : Tight w) (ha : isBlank a) (h : w <:+: a ++ b) :
    w <:+: b := by
  obtain ⟨c, v, rfl, hc⟩ := hw.exists_head
  obtain ⟨x, y, e⟩ := h
  rw [List.append_assoc] at e
  rcases List.append_eq_append_iff.mp e with ⟨z, hz, hb⟩ | ⟨z, hx, hb⟩
  · cases z with
    | nil => exact ⟨[], y, by simpa using hb⟩
    | cons d z =>
        obtain ⟨rfl, -⟩ := List.cons.inj hb
        have := List.all_eq_true.mp ha c (by simp [hz])
        simp [hc] at this
  · exact ⟨z, y, by rw [hb, List.append_assoc]⟩

/-- Nor is white space behind it. -/
theorem Tight.infix_of_append_blank (hw : Tight w) (hb : isBlank b) (h : w <:+: a ++ b) :
    w <:+: a := by
  obtain ⟨v, c, rfl, hc⟩ := hw.exists_last
  obtain ⟨x, y, e⟩ := h
  obtain ⟨r, hr⟩ := prefix_of_blank e.symm hc hb
  exact ⟨x, r, hr⟩

/-- A text in which a tight word is everything but white space is that word, trimmed. -/
theorem trim_eq_of_squeeze (hw : Tight w) (h : w <:+: t) (hsqueeze : squeeze t = squeeze w) :
    t.trim = w := by
  obtain ⟨x, y, rfl⟩ := h
  rw [squeeze_append, squeeze_append] at hsqueeze
  have hlen := congrArg List.length hsqueeze
  simp only [List.length_append] at hlen
  have hx : squeeze x = [] := List.length_eq_zero_iff.mp (by omega)
  have hy : squeeze y = [] := List.length_eq_zero_iff.mp (by omega)
  exact trim_tight (isBlank_of_squeeze_eq_nil hx) hw (isBlank_of_squeeze_eq_nil hy)

/-! ### Words on one line -/

/-- Induction on the lines of a text. -/
@[elab_as_elim]
theorem line_induction {P : Text → Prop} (last : ∀ l, '\n' ∉ l → P l)
    (line : ∀ l r, '\n' ∉ l → P r → P (l ++ '\n' :: r)) (t : Text) : P t := by
  induction hn : t.length using Nat.strongRecOn generalizing t with
  | ind n ih =>
      obtain ⟨l, hl, rfl | ⟨r, rfl⟩⟩ := exists_line t
      · exact last t hl
      · refine line l r hl (ih r.length ?_ r rfl)
        rw [← hn, List.length_append, List.length_cons]
        omega

theorem exists_mem_pieces_of_infix (hnl : '\n' ∉ w) (hne : w ≠ []) (h : w <:+: t) :
    ∃ p ∈ pieces t, w <:+: p := by
  induction t using line_induction with
  | last l hl =>
      have hl0 : l ≠ [] := fun hl0 => hne (List.infix_nil.mp (hl0 ▸ h))
      exact ⟨l, by simp [pieces_singleton hl hl0], h⟩
  | line l r hl ih =>
      rw [pieces_line hl]
      obtain h | h := infix_newline hnl h
      · exact ⟨_, List.mem_cons_self .., h.trans (List.prefix_append l ['\n']).isInfix⟩
      · obtain ⟨p, hp, hin⟩ := ih h
        exact ⟨p, List.mem_cons_of_mem _ hp, hin⟩

theorem exists_mem_lines_of_infix (hw : Tight w) (hnl : '\n' ∉ w) (h : w <:+: t) :
    ∃ l ∈ lines t, w <:+: l := by
  obtain ⟨p, hp, hin⟩ := exists_mem_pieces_of_infix hnl hw.ne_nil h
  obtain ⟨v, hv, hblank⟩ := exists_chomp p
  rw [hv] at hin
  exact ⟨chomp p, List.mem_map_of_mem hp, hw.infix_of_append_blank hblank hin⟩

theorem mem_dropBlankEnds (hl : l ∈ ls) (hfull : isBlank l = false) : l ∈ dropBlankEnds ls := by
  obtain ⟨-, before, after, hls, hbefore, hafter⟩ := fullSpan_dropBlankEnds ls
  rw [hls, List.mem_append, List.mem_append] at hl
  have hnot : ¬isBlank l := Bool.eq_false_iff.mp hfull
  rcases hl with (hl | hl) | hl
  · exact absurd (hbefore l hl) hnot
  · exact hl
  · exact absurd (hafter l hl) hnot

theorem exists_mem_bodyLines_of_infix (hw : Tight w) (hnl : '\n' ∉ w) (h : w <:+: t) :
    ∃ l ∈ bodyLines t, w <:+: l := by
  obtain ⟨s, mid, s', ht, hs, hs', hbody⟩ := exists_bodyLines t
  rw [ht] at h
  have hmid : w <:+: mid := hw.infix_of_append_blank (isBlank_of_newlines hs')
    (infix_of_newlines hs hnl hw.ne_nil h)
  obtain ⟨l, hl, hin⟩ := exists_mem_lines_of_infix hw hnl hmid
  rw [hbody]
  exact ⟨l, mem_dropBlankEnds hl (not_isBlank_of_holds hw.not_isBlank hin), hin⟩

theorem Tight.infix_trimEnd (hw : Tight w) (h : w <:+: t) : w <:+: t.trimEnd := by
  obtain ⟨v, hv, hblank⟩ := exists_trimEnd t
  rw [hv] at h
  exact hw.infix_of_append_blank hblank h

theorem Tight.infix_trim (hw : Tight w) (h : w <:+: t) : w <:+: t.trim := by
  refine hw.infix_trimEnd ?_
  rw [← List.takeWhile_append_dropWhile (p := Graft.isBlank) (l := t)] at h
  exact hw.infix_of_blank_append List.all_takeWhile h

theorem Tight.infix_cutIndent (hw : Tight w) (hwidth : width ≤ indentWidth l) (h : w <:+: l) :
    w <:+: cutIndent width l := by
  simp only [cutIndent]
  split
  · refine hw.infix_trimEnd ?_
    rw [← List.take_append_drop (floorPos l width) l] at h
    exact hw.infix_of_blank_append (isBlank_take_floorPos hwidth) h
  · exact hw.infix_trim h

/-- A word on one line stays at any indentation. -/
theorem infix_reindent (hw : Tight w) (hnl : '\n' ∉ w) (h : w <:+: t) (indent : Text) :
    w <:+: reindent t indent := by
  obtain ⟨l, hl, hin⟩ := exists_mem_bodyLines_of_infix hw hnl h
  have hblank : isBlank l = false := not_isBlank_of_holds hw.not_isBlank hin
  have hshift : w <:+: shiftLine indent (margin (bodyLines t)) l := by
    unfold shiftLine
    rw [hblank, if_neg Bool.false_ne_true]
    exact (hw.infix_cutIndent (margin_le hl hblank) hin).trans ⟨indent, [], by simp⟩
  exact hshift.trans (infix_joinLines_of_mem (List.mem_map_of_mem hl))

/-! ### Several lines -/

theorem shiftLine_cases (indent : Text) (width : Nat) (l : Text) :
    shiftLine indent width l = [] ∨ ∃ r, shiftLine indent width l = indent ++ r ∧ r <:+: l := by
  unfold shiftLine
  split
  · exact .inl rfl
  · exact .inr ⟨_, rfl, infix_of_cutIndent width l⟩

/-- Up to its first character that is no white space, a text at an indentation is as long as the
indentation. -/
theorem length_le_of_prefix_shifted (hindent : isBlank indent) (hv : ¬isBlank v)
    (h : v <+: joinLines (ls.map (shiftLine indent width))) : indent.length ≤ v.length := by
  induction ls generalizing v with
  | nil =>
      obtain rfl := List.prefix_nil.mp h
      exact absurd rfl hv
  | cons l ls ih =>
      rw [List.map_cons, joinLines_cons] at h
      obtain hl | ⟨r, hl, -⟩ := shiftLine_cases indent width l
      · rw [hl, List.nil_append] at h
        cases v with
        | nil => exact absurd rfl hv
        | cons c v =>
            split at h
            · simp at h
            · obtain ⟨rfl, hrest⟩ := List.cons_prefix_cons.mp h
              have hv' : ¬isBlank v := fun hblank =>
                hv (isBlank_append (u := ['\n']).mpr ⟨rfl, hblank⟩)
              exact Nat.le_succ_of_le (ih hv' hrest)
      · rw [hl, List.append_assoc] at h
        refine Nat.le_of_not_lt fun hlt => hv ?_
        have hpre : v <+: indent :=
          List.prefix_of_prefix_length_le h (List.prefix_append ..) (Nat.le_of_lt hlt)
        exact List.all_eq_true.mpr fun c hc => List.all_eq_true.mp hindent c (hpre.subset hc)

/-- So is what follows any newline in it. -/
theorem length_le_of_infix_shifted (hindent : indent.all isIndent) (hls : ∀ l ∈ ls, '\n' ∉ l)
    (hv : ¬isBlank v) (h : '\n' :: v <:+: joinLines (ls.map (shiftLine indent width))) :
    indent.length ≤ v.length := by
  have hblank : isBlank indent := isBlank_of_all_isIndent hindent
  induction ls with
  | nil => simp [joinLines, joinWith] at h
  | cons l ls ih =>
      have hl : '\n' ∉ shiftLine indent width l := by
        intro hmem
        obtain hl | ⟨r, hl, hr⟩ := shiftLine_cases indent width l
        · simp [hl] at hmem
        · rw [hl, List.mem_append] at hmem
          rcases hmem with hmem | hmem
          · exact absurd (List.all_eq_true.mp hindent _ hmem) (by decide)
          · exact hls l (List.mem_cons_self ..) (hr.subset hmem)
      rw [List.map_cons, joinLines_cons] at h
      split at h
      · rw [List.append_nil] at h
        exact absurd (h.subset (List.mem_cons_self ..)) hl
      · obtain ⟨x, y, e⟩ := h
        have e' : shiftLine indent width l ++ '\n' :: [] ++ joinLines (ls.map (shiftLine indent width)) =
            x ++ '\n' :: (v ++ y) := by simpa using e.symm
        obtain ⟨-, hrest⟩ | ⟨z, -, hrest⟩ := cases_of_word e' hl List.not_mem_nil
        · exact length_le_of_prefix_shifted hblank hv ⟨y, hrest⟩
        · refine ih (fun l hl => hls l (List.mem_cons_of_mem _ hl)) ⟨z, y, ?_⟩
          rw [hrest, List.append_assoc, List.cons_append]

theorem chomp_newline_prefix_self (l : Text) : chomp (l ++ ['\n']) <+: l := by
  unfold chomp
  rw [List.reverse_append, List.reverse_singleton, List.singleton_append]
  split
  · next r e =>
      have hl : l = r.reverse ++ ['\r'] := by simpa using congrArg List.reverse (List.cons.inj e).2
      rw [hl]
      exact List.prefix_append _ _
  · next r _ e =>
      have hl : r.reverse = l := by rw [← (List.cons.inj e).2, List.reverse_reverse]
      exact ⟨[], by rw [List.append_nil, hl]⟩
  · next h => exact absurd rfl (h _)

theorem newline_notMem_of_mem_lines (h : l ∈ lines t) : '\n' ∉ l := by
  induction t using line_induction with
  | last m hm => exact fun hmem => hm ((infix_of_mem_lines h).subset hmem)
  | line m r hm ih =>
      unfold lines at h
      rw [pieces_line hm, List.map_cons, List.mem_cons] at h
      obtain rfl | h := h
      · exact fun hmem => hm ((chomp_newline_prefix_self m).subset hmem)
      · exact ih h

/-- A text that is not blank comes back from every indentation exactly when it is one line, white
space around it aside. -/
theorem trim_reindent_iff (ht : ¬isBlank t) :
    (∀ indent, indent.all isIndent → (reindent t indent).trim = t.trim) ↔ '\n' ∉ t.trim := by
  obtain ⟨v, v', e, hv, hv'⟩ := exists_trim t
  have hin : t.trim <:+: t := ⟨v, v', e.symm⟩
  constructor
  · intro h hmem
    -- a long indentation does not fit into the text, but comes behind its first newline
    have hindent : (List.replicate t.length ' ').all isIndent := by
      rw [List.all_replicate]
      split
      · rfl
      · rfl
    obtain ⟨u, w, hu⟩ := List.append_of_mem hmem
    have htrim : '\n' :: w <:+: reindent t (List.replicate t.length ' ') := by
      obtain ⟨x, y, e, -⟩ := exists_trim (reindent t (List.replicate t.length ' '))
      rw [h _ hindent, hu] at e
      exact ⟨x ++ u, y, by rw [e]; simp⟩
    have hw : ¬isBlank w := by
      obtain ⟨r, c, hr, hc⟩ := (tight_trim ht).exists_last
      intro hw
      have hlast : c ∈ '\n' :: w := by
        refine List.mem_of_getLast? (a := c) ?_
        have := congrArg List.getLast? (hu.symm.trans hr)
        simpa using this
      have := List.all_eq_true.mp (isBlank_append (u := ['\n']).mpr ⟨rfl, hw⟩) c hlast
      simp [hc] at this
    have hlen := length_le_of_infix_shifted hindent
      (fun l hl => newline_notMem_of_mem_lines (mem_of_mem_dropBlankEnds hl)) hw htrim
    have hle := hin.length_le
    rw [hu] at hle
    simp only [List.length_replicate, List.length_append, List.length_cons] at hlen hle
    omega
  · intro hnl indent hindent
    refine trim_eq_of_squeeze (tight_trim ht) (infix_reindent (tight_trim ht) hnl hin indent) ?_
    rw [squeeze_reindent hindent, squeeze_trim]

end Graft.Text
