import Graft.Text.Line

/-! # Where lines start

`AtLineStart a` says that what follows `a` begins a new line.  The pieces of a text are cut at such
places: `pieces_append` cuts a text at one of them, and each piece begins at one
(`atLineStart_of_pieces`).  `Around` tells the line around a position from what comes before and
behind it; that line is a piece (`Around.pieces_eq`). -/

namespace Graft.Text

/-- The characters after `a` begin a new line. -/
def AtLineStart (a : Text) : Prop := a = [] ∨ a.getLast? = some '\n'

theorem atLineStart_nil : AtLineStart [] := .inl rfl

theorem atLineStart_newline (a : Text) : AtLineStart (a ++ ['\n']) := .inr (by simp)

theorem AtLineStart.append {a b : Text} (ha : AtLineStart a) (hb : AtLineStart b) :
    AtLineStart (a ++ b) := by
  rcases hb with rfl | hb
  · rwa [List.append_nil]
  · refine .inr ?_
    rw [List.getLast?_append, hb, Option.some_or]

/-- A place is at a line start by what lies nearest before it. -/
theorem atLineStart_append_iff {a b : Text} (hb : b ≠ []) :
    AtLineStart (a ++ b) ↔ AtLineStart b := by
  obtain ⟨x, hx⟩ := Option.isSome_iff_exists.mp (List.getLast?_isSome.mpr hb)
  simp [AtLineStart, hb, hx, List.getLast?_append]

theorem AtLineStart.of_append {a b : Text} (h : AtLineStart (a ++ b)) (hb : b ≠ []) :
    AtLineStart b := (atLineStart_append_iff hb).mp h

theorem AtLineStart.of_cons {c : Char} {a : Text} (h : AtLineStart (c :: a)) : AtLineStart a := by
  cases a with
  | nil => exact atLineStart_nil
  | cons d a => exact h.of_append (a := [c]) (List.cons_ne_nil d a)

/-- Line starts that no newline separates are the same. -/
theorem AtLineStart.eq_nil {a z : Text} (h : AtLineStart (a ++ z)) (hz : '\n' ∉ z) : z = [] := by
  by_cases hne : z = []
  · exact hne
  · rcases h.of_append hne with h | h
    · exact h
    · exact absurd (List.mem_of_getLast? h) hz

/-- A place on a line determines where the line starts. -/
theorem AtLineStart.unique {a a' l l' : Text} (ha : AtLineStart a) (ha' : AtLineStart a')
    (hl : '\n' ∉ l) (hl' : '\n' ∉ l') (e : a ++ l = a' ++ l') : a = a' ∧ l = l' := by
  rcases List.append_eq_append_iff.mp e with ⟨z, rfl, rfl⟩ | ⟨z, rfl, rfl⟩
  · obtain rfl := ha'.eq_nil fun hz => hl (List.mem_append_left _ hz)
    simp
  · obtain rfl := ha.eq_nil fun hz => hl' (List.mem_append_left _ hz)
    simp

/-- A line ends before the text. -/
def LineEnds (t : Text) : Prop := ∀ c, t.head? = some c → c = '\n'

theorem lineEnds_nil : LineEnds [] := by
  rintro c ⟨⟩

theorem lineEnds_newline (t : Text) : LineEnds ('\n' :: t) := by
  rintro c ⟨⟩
  rfl

/-- The rest of a line is determined by where it begins. -/
theorem LineEnds.unique {l l' t t' : Text} (ht : LineEnds t) (ht' : LineEnds t') (hl : '\n' ∉ l)
    (hl' : '\n' ∉ l') (e : l ++ t = l' ++ t') : l = l' ∧ t = t' := by
  have heq : ∀ {z r : Text}, '\n' ∉ z → LineEnds (z ++ r) → z = [] := by
    intro z r hz h
    cases z with
    | nil => rfl
    | cons c z =>
        obtain rfl := h c rfl
        simp at hz
  rcases List.append_eq_append_iff.mp e with ⟨z, rfl, rfl⟩ | ⟨z, rfl, rfl⟩
  · obtain rfl := heq (fun hz => hl' (List.mem_append_right _ hz)) ht
    simp
  · obtain rfl := heq (fun hz => hl (List.mem_append_right _ hz)) ht'
    simp

/-- A text is the rest of a line and what follows it. -/
theorem exists_lineEnd (t : Text) : ∃ l r, t = l ++ r ∧ '\n' ∉ l ∧ LineEnds r := by
  induction t with
  | nil => exact ⟨[], [], rfl, List.not_mem_nil, lineEnds_nil⟩
  | cons c t ih =>
      by_cases hc : c = '\n'
      · subst hc
        exact ⟨[], '\n' :: t, rfl, List.not_mem_nil, lineEnds_newline t⟩
      · obtain ⟨l, r, rfl, hl, hr⟩ := ih
        refine ⟨c :: l, r, rfl, ?_, hr⟩
        rw [List.mem_cons, not_or]
        exact ⟨Ne.symm hc, hl⟩

theorem takeWhile_line {l r : Text} (hl : '\n' ∉ l) (hr : LineEnds r) :
    (l ++ r).takeWhile (· ≠ '\n') = l := by
  have hr' : r.takeWhile (fun c : Char => decide (c ≠ '\n')) = [] := by
    cases r with
    | nil => rfl
    | cons c r =>
        obtain rfl := hr c rfl
        rfl
  rw [List.takeWhile_append_of_pos, hr', List.append_nil]
  intro c hc
  rw [decide_eq_true_eq]
  rintro rfl
  exact hl hc

/-- A text is cut where its last line starts. -/
theorem exists_lineStart (a : Text) : ∃ x l, a = x ++ l ∧ AtLineStart x ∧ '\n' ∉ l := by
  obtain ⟨l, r, h, hl, hr⟩ := exists_lineEnd a.reverse
  refine ⟨r.reverse, l.reverse, ?_, ?_, by simpa using hl⟩
  · rw [← List.reverse_append, ← h, List.reverse_reverse]
  · cases r with
    | nil => exact atLineStart_nil
    | cons c r =>
        obtain rfl := hr c rfl
        rw [List.reverse_cons]
        exact atLineStart_newline _

theorem lineStart_append {x l : Text} (hx : AtLineStart x) (hl : '\n' ∉ l) (r : Text) :
    lineStart (x ++ l ++ r) (x ++ l).length = x.length := by
  have hends : LineEnds x.reverse := by
    intro c hc
    rw [List.head?_reverse] at hc
    rcases hx with rfl | hx
    · simp at hc
    · exact Option.some.inj (hc.symm.trans hx)
  rw [lineStart, List.take_left, List.reverse_append, takeWhile_line (by simpa using hl) hends]
  simp only [List.length_append, List.length_reverse]
  omega

/-- The next line starts behind the newline that ends this one. -/
theorem nextLineStart_append {x l r : Text} (hl : '\n' ∉ l) (hr : LineEnds r) :
    nextLineStart (x ++ (l ++ r)) x.length = x.length + l.length + (r.take 1).length := by
  rw [nextLineStart, List.drop_left, takeWhile_line hl hr]
  simp only [List.length_append, List.length_take]
  omega

/-- Where a position lies in a text: `x` ends before its line, `l` and `m` are on the line before it
and behind it, and `r` begins with the newline of the line if it has one. -/
structure Around (t : Text) (pos : Nat) (x l m r : Text) : Prop where
  split : t = x ++ l ++ (m ++ r)
  length_eq : (x ++ l).length = pos
  lineStart : AtLineStart x
  before : '\n' ∉ l
  behind : '\n' ∉ m
  lineEnds : LineEnds r

theorem exists_around {t : Text} {pos : Nat} (h : pos ≤ t.length) :
    ∃ x l m r, Around t pos x l m r := by
  obtain ⟨x, l, hx, hstart, hl⟩ := exists_lineStart (t.take pos)
  obtain ⟨m, r, hr, hm, hends⟩ := exists_lineEnd (t.drop pos)
  refine ⟨x, l, m, r, ⟨?_, ?_, hstart, hl, hm, hends⟩⟩
  · rw [← hx, ← hr, List.take_append_drop]
  · rw [← hx, List.length_take_of_le h]

namespace Around

variable {t x l m r : Text} {pos : Nat} (h : Around t pos x l m r)

include h

theorem lineStart_eq : t.lineStart pos = x.length := by
  rw [h.split, ← h.length_eq, lineStart_append h.lineStart h.before]

theorem nextLineStart_eq : t.nextLineStart pos = (x ++ (l ++ m ++ r.take 1)).length := by
  rw [h.split, ← h.length_eq, nextLineStart_append h.behind h.lineEnds]
  simp only [List.length_append, Nat.add_assoc]

theorem split_line : t = x ++ (l ++ m ++ r.take 1) ++ r.drop 1 := by
  rw [List.append_assoc, List.append_assoc _ (r.take 1), List.take_append_drop, h.split]
  simp only [List.append_assoc]

end Around

/-- What comes before the next line ends in a newline, or is everything. -/
theorem take_nextLineStart (t : Text) (pos : Nat) :
    (∃ s r, t = s ++ '\n' :: r ∧ nextLineStart t pos = (s ++ ['\n']).length) ∨
      nextLineStart t pos = t.length := by
  by_cases hpos : pos ≤ t.length
  · obtain ⟨x, l, m, r, h⟩ := exists_around hpos
    rw [h.nextLineStart_eq]
    cases r with
    | nil =>
        refine .inr (congrArg List.length ?_)
        simpa using h.split_line.symm
    | cons c r =>
        obtain rfl := h.lineEnds c rfl
        exact .inl ⟨x ++ (l ++ m), r, by simpa using h.split_line, by simp⟩
  · refine .inr ?_
    rw [nextLineStart]
    omega

/-- The text before the start of a line. -/
theorem atLineStart_take_lineStart (t : Text) (pos : Nat) : AtLineStart (t.take (lineStart t pos)) := by
  have hmin : t.lineStart pos = t.lineStart (min pos t.length) := by
    rw [lineStart, lineStart, Nat.min_eq_left (Nat.min_le_right ..), List.take_eq_take_min]
  obtain ⟨x, l, m, r, h⟩ := exists_around (Nat.min_le_right pos t.length)
  rw [hmin, h.lineStart_eq, h.split_line, List.append_assoc, List.take_left]
  exact h.lineStart

theorem pieces_eq_nil_iff {t : Text} : pieces t = [] ↔ t = [] := by
  constructor
  · intro h
    rw [← flatten_pieces t, h, List.flatten_nil]
  · rintro rfl
    rfl

theorem pieces_append {a : Text} (h : AtLineStart a) (r : Text) :
    pieces (a ++ r) = pieces a ++ pieces r := by
  induction a with
  | nil => rfl
  | cons c a ih =>
      have ih := ih h.of_cons
      simp only [List.cons_append, pieces]
      split
      · rw [ih, List.cons_append]
      · next hc =>
          have ha : a ≠ [] := by
            rintro rfl
            rcases h with h | h
            · simp at h
            · exact hc (by simpa using h)
          rw [ih]
          cases hp : pieces a with
          | nil => exact absurd (pieces_eq_nil_iff.mp hp) ha
          | cons p ps => rfl

theorem pieces_singleton {l : Text} (hl : '\n' ∉ l) (hne : l ≠ []) : pieces l = [l] := by
  induction l with
  | nil => exact absurd rfl hne
  | cons c l ih =>
      rw [List.mem_cons, not_or] at hl
      rw [pieces, if_neg (Ne.symm hl.1)]
      by_cases h : l = []
      · rw [h]
        rfl
      · rw [ih hl.2 h]

theorem pieces_newline {l : Text} (hl : '\n' ∉ l) : pieces (l ++ ['\n']) = [l ++ ['\n']] := by
  induction l with
  | nil => rfl
  | cons c l ih =>
      rw [List.mem_cons, not_or] at hl
      rw [List.cons_append, pieces, if_neg (Ne.symm hl.1), ih hl.2]

theorem pieces_line {l : Text} (hl : '\n' ∉ l) (r : Text) :
    pieces (l ++ '\n' :: r) = (l ++ ['\n']) :: pieces r := by
  rw [List.append_cons, pieces_append (atLineStart_newline l), pieces_newline hl,
    List.singleton_append]

/-- The line around a position, with its newline, is one of the pieces. -/
theorem Around.pieces_eq {t x l m r : Text} {pos : Nat} (h : Around t pos x l m r)
    (hne : l ++ m ++ r.take 1 ≠ []) :
    pieces t = pieces x ++ (l ++ m ++ r.take 1) :: pieces (r.drop 1) := by
  have hline : '\n' ∉ l ++ m := by
    rw [List.mem_append, not_or]
    exact ⟨h.before, h.behind⟩
  have hsplit : t = x ++ (l ++ m ++ r) := by
    rw [h.split]
    simp only [List.append_assoc]
  rw [hsplit, pieces_append h.lineStart]
  refine congrArg (pieces x ++ ·) ?_
  cases r with
  | nil =>
      simp only [List.take_nil, List.append_nil] at hne
      simp only [List.take_nil, List.drop_nil, List.append_nil]
      exact pieces_singleton hline hne
  | cons c r =>
      obtain rfl := h.lineEnds c rfl
      exact pieces_line hline r

/-- A text is one line, or a line with its newline and more text. -/
theorem exists_line (t : Text) :
    ∃ l, '\n' ∉ l ∧ (t = l ∨ ∃ r, t = l ++ '\n' :: r) := by
  induction t with
  | nil => exact ⟨[], List.not_mem_nil, .inl rfl⟩
  | cons c t ih =>
      by_cases hc : c = '\n'
      · exact ⟨[], List.not_mem_nil, .inr ⟨t, by rw [hc, List.nil_append]⟩⟩
      · obtain ⟨l, hl, ht⟩ := ih
        refine ⟨c :: l, by simp [hl, Ne.symm hc], ?_⟩
        rcases ht with rfl | ⟨r, rfl⟩
        · exact .inl rfl
        · exact .inr ⟨r, rfl⟩

/-- The first piece of a text goes at least as far as the text has no newline. -/
theorem exists_first_piece {x y : Text} {c : Char} (hx : '\n' ∉ x) (hc : c ≠ '\n') :
    ∃ z ls, pieces (x ++ c :: y) = (x ++ c :: z) :: ls := by
  obtain ⟨l, hl, ht⟩ := exists_line y
  have hxl : '\n' ∉ x ++ c :: l := by
    simp only [List.mem_append, List.mem_cons, not_or]
    exact ⟨hx, Ne.symm hc, hl⟩
  rcases ht with rfl | ⟨r, rfl⟩
  · exact ⟨y, [], pieces_singleton hxl (by simp)⟩
  · refine ⟨l ++ ['\n'], pieces r, ?_⟩
    have h := pieces_line hxl r
    simpa using h

theorem atLineStart_of_pieces {t l : Text} {ls1 ls2 : List Text}
    (h : pieces t = ls1 ++ l :: ls2) : AtLineStart ls1.flatten := by
  induction ls1 generalizing t with
  | nil => exact atLineStart_nil
  | cons p ls1 ih =>
      obtain ⟨l0, hl0, rfl | ⟨r, rfl⟩⟩ := exists_line t
      · by_cases hne : t = []
        · rw [hne] at h
          simp [pieces] at h
        · rw [pieces_singleton hl0 hne] at h
          simp at h
      · rw [pieces_line hl0, List.cons_append] at h
        obtain ⟨rfl, h'⟩ := List.cons.inj h
        rw [List.flatten_cons]
        exact (atLineStart_newline l0).append (ih h')

/-- A newline can only be the last character of a piece. -/
theorem newline_notMem_of_pieces {t x y : Text} {c : Char} {ls1 ls2 : List Text}
    (h : pieces t = ls1 ++ (x ++ c :: y) :: ls2) : '\n' ∉ x := by
  induction ls1 generalizing t with
  | nil =>
      obtain ⟨l0, hl0, rfl | ⟨r, rfl⟩⟩ := exists_line t
      · by_cases hne : t = []
        · rw [hne] at h
          simp [pieces] at h
        · rw [pieces_singleton hl0 hne] at h
          obtain ⟨rfl, -⟩ := List.cons.inj h
          exact fun hx => hl0 (List.mem_append_left _ hx)
      · rw [pieces_line hl0, List.nil_append] at h
        obtain ⟨e, -⟩ := List.cons.inj h
        rcases List.append_eq_append_iff.mp e with ⟨v, rfl, e'⟩ | ⟨v, rfl, e'⟩
        · cases v with
          | nil => simpa using hl0
          | cons d v =>
              obtain ⟨-, e''⟩ := List.cons.inj e'
              simp at e''
        · exact fun hx => hl0 (List.mem_append_left _ hx)
  | cons p ls1 ih =>
      obtain ⟨l0, hl0, rfl | ⟨r, rfl⟩⟩ := exists_line t
      · by_cases hne : t = []
        · rw [hne] at h
          simp [pieces] at h
        · rw [pieces_singleton hl0 hne] at h
          simp at h
      · rw [pieces_line hl0, List.cons_append] at h
        exact ih (List.cons.inj h).2

end Graft.Text
