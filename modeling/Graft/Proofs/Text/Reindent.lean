import Graft.Proofs.Text.Line
import Graft.Text.Indent
import Mathlib.Data.List.DropRight

/-! # Moving lines to an indentation

The lines of joined lines are these lines (`lines_joinLines_of_bare`), and what is moved of a text is
what it has from its first to its last line with something on it (`fullSpan_dropBlankEnds`).  For lines
that do not end in white space, one of which has no indentation, `reindent` puts the new indentation
in front of each and changes nothing else (`reindent_joinLines`). -/

namespace Graft.Text

variable {ls body : List Text} {l t indent : Text} {width : Nat}

/-- A line that does not end in white space, and so is not blank. -/
def Full (l : Text) : Prop := '\n' ∉ l ∧ l.getLast?.any fun c => !Graft.isBlank c

instance (l : Text) : Decidable (Full l) := inferInstanceAs (Decidable (_ ∧ _))

/-- Full lines, at least one of them without indentation. -/
def Body (ls : List Text) : Prop :=
  (∀ l ∈ ls, Full l) ∧ ∃ l ∈ ls, l.head?.any fun c => !Graft.isBlank c

instance (ls : List Text) : Decidable (Body ls) := inferInstanceAs (Decidable (_ ∧ _))

theorem Full.exists_last (h : Full l) : ∃ v c, l = v ++ [c] ∧ Graft.isBlank c = false := by
  obtain ⟨-, h⟩ := h
  cases hlast : l.getLast? with
  | none => simp [hlast] at h
  | some c =>
      obtain ⟨v, rfl⟩ := List.getLast?_eq_some_iff.mp hlast
      exact ⟨v, c, rfl, by simpa [hlast] using h⟩

theorem Full.ne_nil (h : Full l) : l ≠ [] := by
  obtain ⟨v, c, rfl, -⟩ := h.exists_last
  simp

theorem Full.not_isBlank (h : Full l) : isBlank l = false := by
  obtain ⟨v, c, rfl, hc⟩ := h.exists_last
  rw [isBlank, List.all_append, Bool.and_eq_false_iff]
  right
  simp [hc]

theorem Full.dropEndWhile {p : Char → Bool} (h : Full l)
    (hp : ∀ c, p c → Graft.isBlank c) : dropEndWhile p l = l := by
  obtain ⟨v, c, rfl, hc⟩ := h.exists_last
  have : p c = false := by
    rw [← Bool.not_eq_true]
    intro hpc
    rw [hp c hpc] at hc
    simp at hc
  rw [Text.dropEndWhile, List.reverse_append, List.reverse_singleton, List.singleton_append,
    List.dropWhile_cons, this, if_neg Bool.false_ne_true]
  simp

theorem Full.trimEnd (h : Full l) : l.trimEnd = l := h.dropEndWhile fun _ hc => hc

theorem Full.indented (h : Full l) (hnl : '\n' ∉ indent) : Full (indent ++ l) := by
  obtain ⟨v, c, rfl, hc⟩ := h.exists_last
  refine ⟨?_, by simp [← List.append_assoc, hc]⟩
  rw [List.mem_append, not_or]
  exact ⟨hnl, h.1⟩

/-! ### The lines of a text -/

theorem joinLines_cons (l : Text) (ls : List Text) :
    joinLines (l :: ls) = l ++ (if ls = [] then [] else '\n' :: joinLines ls) := by
  cases ls with
  | nil => simp [joinLines, joinWith, List.intercalate]
  | cons l' ls => simp [joinLines, joinWith, List.intercalate, List.intersperse]

theorem prefix_joinLines (h : ls.head? = some l) : l <+: joinLines ls := by
  obtain ⟨ls, rfl⟩ := List.head?_eq_some_iff.mp h
  rw [joinLines_cons]
  exact List.prefix_append _ _

theorem suffix_joinLines (h : ls.getLast? = some l) : l <:+ joinLines ls := by
  induction ls with
  | nil => simp at h
  | cons m ls ih =>
      rw [joinLines_cons]
      by_cases hls : ls = []
      · obtain rfl : m = l := by simpa [hls] using h
        exact ⟨[], by rw [if_pos hls, List.append_nil, List.nil_append]⟩
      · rw [List.getLast?_cons_of_ne_nil hls] at h
        rw [if_neg hls]
        exact (ih h).trans ⟨m ++ ['\n'], by simp⟩

theorem exists_last_joinLines (h : ∀ l ∈ ls, Full l) (hne : ls ≠ []) :
    ∃ t c, joinLines ls = t ++ [c] ∧ Graft.isBlank c = false := by
  obtain ⟨l, hl⟩ := Option.isSome_iff_exists.mp (List.getLast?_isSome.mpr hne)
  obtain ⟨y, hy⟩ := suffix_joinLines hl
  obtain ⟨v, c, rfl, hc⟩ := (h l (List.mem_of_getLast? hl)).exists_last
  exact ⟨y ++ v, c, by rw [← hy, List.append_assoc], hc⟩

/-- A line as a text gives it: without a newline, and without a carriage return at its end, which
would go with the newline. -/
def Bare (l : Text) : Prop := '\n' ∉ l ∧ l.getLast? ≠ some '\r'

theorem Full.bare (h : Full l) : Bare l := by
  obtain ⟨v, c, rfl, hc⟩ := h.exists_last
  refine ⟨h.1, ?_⟩
  rw [List.getLast?_concat]
  rintro ⟨⟩
  exact absurd hc (by decide)

theorem chomp_of_notMem (h : '\n' ∉ l) : chomp l = l := by
  rw [chomp]
  split
  · next r e =>
      exact absurd (List.mem_reverse.mp (by rw [e]; exact List.mem_cons_self ..)) h
  · next r _ e =>
      exact absurd (List.mem_reverse.mp (by rw [e]; exact List.mem_cons_self ..)) h
  · rfl

theorem chomp_newline (h : Bare l) : chomp (l ++ ['\n']) = l := by
  rw [chomp, List.reverse_append, List.reverse_singleton, List.singleton_append]
  split
  · next r e =>
      have hr : l.getLast? = some '\r' := by
        rw [← List.head?_reverse, (List.cons.inj e).2, List.head?_cons]
      exact absurd hr h.2
  · next e => rw [← (List.cons.inj e).2, List.reverse_reverse]
  · next h2 => exact absurd rfl (h2 _)

/-- The lines of joined lines are these lines, if the last one is not empty. -/
theorem lines_joinLines_of_bare (h : ∀ l ∈ ls, Bare l) (hlast : ls.getLast? ≠ some []) :
    lines (joinLines ls) = ls := by
  induction ls with
  | nil => rfl
  | cons l ls ih =>
      have hl := h l (List.mem_cons_self ..)
      rw [joinLines_cons]
      by_cases hls : ls = []
      · rw [hls] at hlast ⊢
        have hne : l ≠ [] := fun e => hlast (by rw [e]; rfl)
        rw [if_pos rfl, List.append_nil, lines, pieces_singleton hl.1 hne, List.map_singleton,
          chomp_of_notMem hl.1]
      · rw [List.getLast?_cons_of_ne_nil hls] at hlast
        rw [if_neg hls, lines, pieces_line hl.1, List.map_cons, chomp_newline hl]
        exact congrArg (l :: ·) (ih (fun l hl => h l (List.mem_cons_of_mem _ hl)) hlast)

theorem lines_joinLines (h : ∀ l ∈ ls, Full l) : lines (joinLines ls) = ls :=
  lines_joinLines_of_bare (fun l hl => (h l hl).bare)
    fun e => (h [] (List.mem_of_getLast? e)).ne_nil rfl

/-! ### From the first to the last line with something on it -/

/-- The first and the last of some lines have something on them. -/
def FullEnds (ls : List Text) : Prop :=
  (∀ l, ls.head? = some l → isBlank l = false) ∧ ∀ l, ls.getLast? = some l → isBlank l = false

theorem FullEnds.map {f : Text → Text} (h : FullEnds ls) (hf : ∀ l ∈ ls, isBlank (f l) = isBlank l) :
    FullEnds (ls.map f) := by
  constructor
  · intro l hl
    obtain ⟨m, hm, rfl⟩ := Option.map_eq_some_iff.mp (List.head?_map ▸ hl)
    exact (hf m (List.mem_of_head? hm)).trans (h.1 m hm)
  · intro l hl
    obtain ⟨m, hm, rfl⟩ := Option.map_eq_some_iff.mp (List.getLast?_map ▸ hl)
    exact (hf m (List.mem_of_getLast? hm)).trans (h.2 m hm)

theorem fullEnds_of_full (h : ∀ l ∈ ls, Full l) : FullEnds ls :=
  ⟨fun l hl => (h l (List.mem_of_head? hl)).not_isBlank,
    fun l hl => (h l (List.mem_of_getLast? hl)).not_isBlank⟩

theorem FullEnds.reverse (h : FullEnds ls) : FullEnds ls.reverse :=
  ⟨fun l hl => h.2 l (List.head?_reverse ▸ hl), fun l hl => h.1 l (List.getLast?_reverse ▸ hl)⟩

theorem FullEnds.dropBlankEnds_eq (h : FullEnds ls) : dropBlankEnds ls = ls := by
  have hdrop : ∀ {ls : List Text}, FullEnds ls → ls.dropWhile isBlank = ls := by
    intro ls h
    cases ls with
    | nil => rfl
    | cons l ls => rw [List.dropWhile_cons, h.1 l rfl, if_neg Bool.false_ne_true]
  rw [dropBlankEnds, hdrop h, hdrop h.reverse, List.reverse_reverse]

/-- `body` is what `ls` has from its first to its last line with something on it. -/
def FullSpan (ls body : List Text) : Prop :=
  FullEnds body ∧ ∃ before after, ls = before ++ body ++ after ∧
    (∀ l ∈ before, isBlank l) ∧ ∀ l ∈ after, isBlank l

theorem fullSpan_dropBlankEnds (ls : List Text) : FullSpan ls (dropBlankEnds ls) := by
  have hblank : ∀ ls : List Text, ∀ l ∈ ls.takeWhile isBlank, isBlank l := fun ls =>
    List.all_eq_true.mp List.all_takeWhile
  have hhead : ∀ (ls : List Text) l, (ls.dropWhile isBlank).head? = some l → isBlank l = false := by
    intro ls l hl
    simpa [hl] using List.head?_dropWhile_not isBlank ls
  have hsplit : ls.dropWhile isBlank =
      dropBlankEnds ls ++ ((ls.dropWhile isBlank).reverse.takeWhile isBlank).reverse := by
    rw [dropBlankEnds, ← List.reverse_append, List.takeWhile_append_dropWhile, List.reverse_reverse]
  refine ⟨⟨fun l hl => ?_, fun l hl => ?_⟩, ls.takeWhile isBlank,
    ((ls.dropWhile isBlank).reverse.takeWhile isBlank).reverse, ?_, hblank ls,
    fun l hl => hblank _ l (List.mem_reverse.mp hl)⟩
  · refine hhead ls l ?_
    rw [hsplit, List.head?_append, hl, Option.some_or]
  · refine hhead (ls.dropWhile isBlank).reverse l ?_
    rwa [dropBlankEnds, List.getLast?_reverse] at hl
  · rw [List.append_assoc, ← hsplit, List.takeWhile_append_dropWhile]

theorem fullEnds_bodyLines (t : Text) : FullEnds (bodyLines t) := (fullSpan_dropBlankEnds _).1

/-- The lines that are moved are those of the text without the newlines at its two ends. -/
theorem exists_bodyLines (t : Text) : ∃ s mid s', t = s ++ (mid ++ s') ∧ s.all (· = '\n') ∧
    s'.all (· = '\n') ∧ bodyLines t = dropBlankEnds mid.lines := by
  refine ⟨t.takeWhile (· = '\n'), dropEndWhile (· = '\n') (t.dropWhile (· = '\n')),
    ((t.dropWhile (· = '\n')).reverse.takeWhile (· = '\n')).reverse, ?_, List.all_takeWhile, ?_, rfl⟩
  · rw [dropEndWhile_append_takeWhile, List.takeWhile_append_dropWhile]
  · rw [List.all_reverse]
    exact List.all_takeWhile

/-- Joined lines of which the first and the last have something on them are moved as they are. -/
theorem bodyLines_joinLines (h : ∀ l ∈ ls, Bare l) (hends : FullEnds ls) :
    bodyLines (joinLines ls) = ls := by
  by_cases hne : ls = []
  · rw [hne]
    rfl
  have hstart : (joinLines ls).dropWhile (· = '\n') = joinLines ls := by
    obtain ⟨l, hl⟩ := Option.isSome_iff_exists.mp (List.isSome_head?.mpr hne)
    obtain ⟨y, hy⟩ := prefix_joinLines hl
    have hnl := (h l (List.mem_of_head? hl)).1
    cases l with
    | nil => exact absurd (hends.1 [] hl) (by decide)
    | cons c l =>
        rw [List.mem_cons, not_or] at hnl
        rw [← hy, List.cons_append, List.dropWhile_cons, if_neg (by simpa using Ne.symm hnl.1)]
  have hend : dropEndWhile (· = '\n') (joinLines ls) = joinLines ls := by
    obtain ⟨m, hm⟩ := Option.isSome_iff_exists.mp (List.getLast?_isSome.mpr hne)
    obtain ⟨y, hy⟩ := suffix_joinLines hm
    have hnl := (h m (List.mem_of_getLast? hm)).1
    rcases List.eq_nil_or_concat m with rfl | ⟨v, d, rfl⟩
    · exact absurd (hends.2 [] hm) (by decide)
    · have hd : d ≠ '\n' := fun e => hnl (by rw [e]; simp)
      rw [← hy, List.concat_eq_append, ← List.append_assoc]
      exact List.rdropWhile_concat_neg _ _ _ (by simpa using hd)
  have hlast : ls.getLast? ≠ some [] := fun e => absurd (hends.2 [] e) (by decide)
  rw [bodyLines, hstart, hend, lines_joinLines_of_bare h hlast, hends.dropBlankEnds_eq]

/-! ### The margin -/

theorem margin_eq (hmem : ∃ l ∈ ls, isBlank l = false ∧ indentWidth l = width)
    (hle : ∀ l ∈ ls, isBlank l = false → width ≤ indentWidth l) : margin ls = width := by
  obtain ⟨l, hl, hblank, hwidth⟩ := hmem
  have hmin : ((ls.filter fun l => !isBlank l).map indentWidth).min? = some width := by
    rw [List.min?_eq_some_iff]
    constructor
    · exact List.mem_map.mpr ⟨l, List.mem_filter.mpr ⟨hl, by rw [hblank]; rfl⟩, hwidth⟩
    · intro n hn
      obtain ⟨m, hm, rfl⟩ := List.mem_map.mp hn
      obtain ⟨hm, hfull⟩ := List.mem_filter.mp hm
      exact hle m hm (by simpa using hfull)
  rw [margin, hmin, Option.getD_some]

theorem margin_of_body (h : Body ls) : margin ls = 0 := by
  obtain ⟨hfull, l, hl, hhead⟩ := h
  refine margin_eq ⟨l, hl, (hfull l hl).not_isBlank, ?_⟩ fun _ _ _ => Nat.zero_le _
  cases l with
  | nil => simp at hhead
  | cons c l =>
      have hc : Graft.isBlank c = false := by simpa using hhead
      rw [indentWidth, List.takeWhile_cons, hc, if_neg Bool.false_ne_true]
      rfl

/-- Behind white space of the given width, a cut leaves all but the white space at the end. -/
theorem cutIndent_append (v r : Text) : cutIndent (byteLength v) (v ++ r) = r.trimEnd := by
  simp only [cutIndent, floorPos_append]
  rw [if_pos (byteOffset_append v r), List.drop_left]

theorem shiftLine_of_isBlank (h : isBlank l) (indent : Text) (width : Nat) :
    shiftLine indent width l = [] := by
  rw [shiftLine, if_pos h]

theorem shiftLine_of_not_isBlank (h : isBlank l = false) (indent : Text) (width : Nat) :
    shiftLine indent width l = indent ++ cutIndent width l := by
  rw [shiftLine, h, if_neg Bool.false_ne_true]

theorem shiftLine_zero (h : Full l) (indent : Text) : shiftLine indent 0 l = indent ++ l := by
  have hcut : cutIndent 0 l = l.trimEnd := cutIndent_append [] l
  rw [shiftLine_of_not_isBlank h.not_isBlank, hcut, h.trimEnd]

/-- Lines without a common indentation get the new one. -/
theorem reindent_joinLines (h : Body ls) (indent : Text) :
    reindent (joinLines ls) indent = joinLines (ls.map (indent ++ ·)) := by
  rw [reindent, bodyLines_joinLines (fun l hl => (h.1 l hl).bare) (fullEnds_of_full h.1),
    margin_of_body h]
  refine congrArg joinLines (List.map_congr_left fun l hl => ?_)
  exact shiftLine_zero (h.1 l hl) indent

end Graft.Text
