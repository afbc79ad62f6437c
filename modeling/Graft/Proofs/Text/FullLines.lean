import Graft.Proofs.Text.Survive
import Graft.Proofs.Text.WholeLine

/-! # Lines with something on them

What some lines have from the first to the last one with something on it is determined
(`FullSpan.eq_dropBlankEnds`), and no other line has anything on it (`filter_map_trim_dropBlankEnds`).
White space around the lines aside, these are the lines that an indentation moves
(`map_trim_bodyLines`). -/

namespace Graft.Text

variable {ls body : List Text} {l t r : Text}

theorem dropBlankEnds_blank_append (h : ∀ l ∈ ls, isBlank l) (rest : List Text) :
    dropBlankEnds (ls ++ rest) = dropBlankEnds rest := by
  rw [dropBlankEnds, List.dropWhile_append_of_pos h, dropBlankEnds]

theorem dropBlankEnds_append_blank (h : ∀ l ∈ ls, isBlank l) (rest : List Text) :
    dropBlankEnds (rest ++ ls) = dropBlankEnds rest := by
  have hnil : (ls ++ []).dropWhile isBlank = [].dropWhile isBlank := List.dropWhile_append_of_pos h
  rw [List.append_nil, List.dropWhile_nil] at hnil
  have hrev : ∀ l ∈ ls.reverse, isBlank l := fun l hl => h l (List.mem_reverse.mp hl)
  rw [dropBlankEnds, dropBlankEnds, List.dropWhile_append]
  split
  · next he => rw [hnil, List.isEmpty_iff.mp he]
  · rw [List.reverse_append, List.dropWhile_append_of_pos hrev]

/-- Lines have one such part only. -/
theorem FullSpan.eq_dropBlankEnds (h : FullSpan ls body) : body = dropBlankEnds ls := by
  obtain ⟨hends, before, after, rfl, hbefore, hafter⟩ := h
  rw [dropBlankEnds_append_blank hafter, dropBlankEnds_blank_append hbefore, hends.dropBlankEnds_eq]

/-- A blank line is nothing, trimmed. -/
theorem filter_map_trim_of_isBlank (h : ∀ l ∈ ls, isBlank l) :
    ((ls.map trim).filter fun l => !l.isEmpty) = [] := by
  rw [List.filter_eq_nil_iff]
  intro m hm
  obtain ⟨l, hl, rfl⟩ := List.mem_map.mp hm
  rw [trim_of_isBlank (h l hl)]
  decide

theorem filter_map_trim_dropBlankEnds (ls : List Text) :
    (((dropBlankEnds ls).map trim).filter fun l => !l.isEmpty) =
      (ls.map trim).filter fun l => !l.isEmpty := by
  obtain ⟨-, before, after, hls, hbefore, hafter⟩ := fullSpan_dropBlankEnds ls
  conv => rhs; rw [hls, List.map_append, List.map_append, List.filter_append, List.filter_append,
    filter_map_trim_of_isBlank hbefore, filter_map_trim_of_isBlank hafter, List.nil_append,
    List.append_nil]

/-! ### The lines that are moved -/

theorem isBlank_trim (l : Text) : isBlank l.trim = isBlank l := by
  by_cases h : isBlank l
  · rw [trim_of_isBlank h, h]
    rfl
  · rw [Bool.eq_false_iff.mpr h, Bool.eq_false_iff]
    exact (tight_trim h).not_isBlank

theorem map_trim_dropBlankEnds (ls : List Text) :
    (dropBlankEnds ls).map trim = dropBlankEnds (ls.map trim) := by
  have hcomp : isBlank ∘ trim = isBlank := funext isBlank_trim
  rw [dropBlankEnds, dropBlankEnds, List.dropWhile_map, hcomp, ← List.map_reverse,
    List.dropWhile_map, hcomp, List.map_reverse]

theorem isBlank_of_mem_map_trim_lines (ht : isBlank t) (h : l ∈ t.lines.map trim) : isBlank l := by
  obtain ⟨m, hm, rfl⟩ := List.mem_map.mp h
  rw [isBlank_trim]
  exact List.all_eq_true.mpr fun c hc =>
    List.all_eq_true.mp ht c ((infix_of_mem_lines hm).subset hc)

theorem atLineStart_of_newlines (h : t.all (· = '\n')) : AtLineStart t := by
  by_cases hne : t = []
  · exact .inl hne
  · refine .inr ?_
    rw [List.getLast?_eq_some_getLast hne]
    have := List.all_eq_true.mp h _ (List.getLast_mem hne)
    simpa using this

/-- Newlines behind a text add blank lines at the most. -/
theorem exists_map_trim_lines_newlines (hr : r.all (· = '\n')) (t : Text) :
    ∃ bs, (t ++ r).lines.map trim = t.lines.map trim ++ bs ∧ ∀ l ∈ bs, isBlank l := by
  cases r with
  | nil => exact ⟨[], by simp, by simp⟩
  | cons c r =>
      rw [List.all_cons, Bool.and_eq_true, decide_eq_true_eq] at hr
      obtain ⟨rfl, hr⟩ := hr
      have hblank : ∀ l ∈ (lines r).map trim, isBlank l := fun l =>
        isBlank_of_mem_map_trim_lines (isBlank_of_newlines hr)
      obtain ⟨x, l, rfl, hx, hl⟩ := exists_lineStart t
      rw [List.append_assoc, map_trim_lines_append hx, map_trim_lines_newline hl,
        map_trim_lines_append hx]
      by_cases hne : l = []
      · refine ⟨[] :: (lines r).map trim, by rw [hne]; simp [lines, pieces], fun m hm => ?_⟩
        obtain rfl | hm := List.mem_cons.mp hm
        · rfl
        · exact hblank m hm
      · exact ⟨_, by rw [map_trim_lines_line hl hne]; simp, hblank⟩

/-- The lines that are moved are those of the text from its first to its last full line. -/
theorem map_trim_bodyLines (t : Text) :
    (bodyLines t).map trim = (dropBlankEnds t.lines).map trim := by
  obtain ⟨s, mid, s', ht, hs, hs', hbody⟩ := exists_bodyLines t
  obtain ⟨bs, hbs, hblank⟩ := exists_map_trim_lines_newlines hs' mid
  have hstart : ∀ l ∈ s.lines.map trim, isBlank l := fun l =>
    isBlank_of_mem_map_trim_lines (isBlank_of_newlines hs)
  rw [hbody, map_trim_dropBlankEnds, map_trim_dropBlankEnds, ht,
    map_trim_lines_append (atLineStart_of_newlines hs), hbs, dropBlankEnds_blank_append hstart,
    dropBlankEnds_append_blank hblank]

end Graft.Text
