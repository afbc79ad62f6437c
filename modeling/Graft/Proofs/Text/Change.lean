import Graft.Text.Indent

/-! # Changes in the middle of a text

The editors put new text where old text was and keep what is before and after.  A word that does not
overlap the old text survives such a change (`Clear.kept`).  Two kinds of changes are clear of a
word: white space goes that a newline, a closing brace or the end follows (`clear_of_blank`), or
whole lines that do not hold the word (`clear_of_line`). -/

namespace Graft.Text

variable {w before old new after p q r a a' : Text}

/-- The text ends, or goes on with a newline or a closing brace. -/
def Stops (t : Text) : Prop := ∀ c, t.head? = some c → c = '\n' ∨ c = '}'

theorem stops_nil : Stops [] := by
  rintro c ⟨⟩

theorem stops_newline (t : Text) : Stops ('\n' :: t) := by
  rintro c ⟨⟩
  exact .inl rfl

theorem stops_brace (t : Text) : Stops ('}' :: t) := by
  rintro c ⟨⟩
  exact .inr rfl

theorem Stops.append (hq : Stops q) (hr : Stops r) : Stops (q ++ r) := by
  cases q with
  | nil => exact hr
  | cons c q => exact hq

theorem Stops.left (h : Stops (q ++ r)) : Stops q := by
  cases q with
  | nil => exact stops_nil
  | cons c q => exact h

/-- The text ends, or goes on with a closing brace. -/
def Closing (t : Text) : Prop := ∀ c, t.head? = some c → c = '}'

theorem closing_nil : Closing [] := by
  rintro c ⟨⟩

theorem closing_brace (t : Text) : Closing ('}' :: t) := by
  rintro c ⟨⟩
  rfl

theorem Closing.append (hq : Closing q) (hr : Closing r) : Closing (q ++ r) := by
  cases q with
  | nil => exact hr
  | cons c q => exact hq

theorem Closing.left (h : Closing (q ++ r)) : Closing q := by
  cases q with
  | nil => exact closing_nil
  | cons c q => exact h

/-- A word without closing braces does not reach into a text that begins with one. -/
theorem Closing.eq_nil {v : Text} (h : Closing (v ++ r)) (hv : '}' ∉ v) : v = [] := by
  cases v with
  | nil => rfl
  | cons c v =>
      obtain rfl := h c rfl
      simp at hv

/-- A word that lies on one line and holds no closing brace. -/
def OneLine (w : Text) : Prop := '\n' ∉ w ∧ '}' ∉ w

instance (w : Text) : Decidable (OneLine w) := inferInstanceAs (Decidable (_ ∧ _))

theorem OneLine.right {u v : Text} (h : OneLine (u ++ v)) : OneLine v :=
  ⟨fun hv => h.1 (List.mem_append_right _ hv), fun hv => h.2 (List.mem_append_right _ hv)⟩

/-- A word on one line does not reach into a text that stops. -/
theorem OneLine.eq_nil_of_stops {v : Text} (h : OneLine v) (hs : Stops (v ++ r)) : v = [] := by
  cases v with
  | nil => rfl
  | cons c v =>
      exfalso
      rcases hs c rfl with rfl | rfl
      · exact h.1 (List.mem_cons_self ..)
      · exact h.2 (List.mem_cons_self ..)

/-! ### Pieces -/

theorem slice_append (x y z : Text) :
    slice (x ++ y ++ z) x.length (x.length + y.length) = y := by
  rw [slice, List.take_left' (by simp), List.drop_left]

theorem replaceRange_append (x y z new : Text) :
    replaceRange (x ++ y ++ z) x.length (x.length + y.length) new = x ++ new ++ z := by
  rw [replaceRange, List.append_assoc x y z, List.take_left, ← List.append_assoc,
    List.drop_left' (by simp)]

/-! ### Words that a change leaves alone -/

/-- No occurrence of the word overlaps the old text. -/
def Clear (w before old after : Text) : Prop :=
  ∀ x y, before ++ old ++ after = x ++ w ++ y →
    x.length + w.length ≤ before.length ∨ before.length + old.length ≤ x.length

theorem Clear.kept (h : Clear w before old after) (hw : w <:+: before ++ old ++ after) :
    w <:+: before ++ new ++ after := by
  obtain ⟨x, y, e⟩ := hw
  rcases h x y e.symm with hlen | hlen
  · have hpre : x ++ w <+: before := by
      refine List.prefix_of_prefix_length_le ⟨y, e⟩ ⟨old ++ after, by simp⟩ ?_
      simpa using hlen
    obtain ⟨z, rfl⟩ := hpre
    exact ⟨x, z ++ new ++ after, by simp⟩
  · have hpre : before ++ old <+: x := by
      refine List.prefix_of_prefix_length_le ⟨after, rfl⟩ ⟨w ++ y, by rw [← e]; simp⟩ ?_
      simpa using hlen
    obtain ⟨z, rfl⟩ := hpre
    have e' : after = z ++ w ++ y := by simpa using e.symm
    exact ⟨before ++ new ++ z, y, by rw [e']; simp⟩

/-- What is clear in a text is clear in each piece that holds the change. -/
theorem Clear.inner (h : Clear w (r ++ p) old (q ++ after)) : Clear w p old q := by
  intro x y e
  have e' : (r ++ p) ++ old ++ (q ++ after) = (r ++ x) ++ w ++ (y ++ after) := by
    have := congrArg (r ++ · ++ after) e
    simpa using this
  have := h (r ++ x) (y ++ after) e'
  simp only [List.length_append] at this
  omega

/-- A word whose last character is no white space ends before white space does. -/
theorem length_le_of_blank {x v : Text} {c : Char} (e : before ++ old = x ++ (w ++ [c]) ++ v)
    (hc : Graft.isBlank c = false) (hold : isBlank old) :
    x.length + (w ++ [c]).length ≤ before.length := by
  have hmem : c ∉ old := by
    intro h
    have := List.all_eq_true.mp hold c h
    rw [hc] at this
    simp at this
  have e' : before ++ old = (x ++ w) ++ c :: v := by simpa using e
  rcases List.append_eq_append_iff.mp e' with ⟨z, -, h⟩ | ⟨z, hb, h⟩
  · exact absurd (by rw [h]; simp) hmem
  · cases z with
    | nil => exact absurd (by rw [show old = c :: v from h.symm]; simp) hmem
    | cons d z =>
        simp only [hb, List.length_append, List.length_cons, List.length_nil]
        omega

/-- A text whose last character is no white space lies before white space. -/
theorem prefix_of_blank {x v : Text} {c : Char} (e : before ++ old = x ++ (w ++ [c]) ++ v)
    (hc : Graft.isBlank c = false) (hold : isBlank old) : x ++ (w ++ [c]) <+: before := by
  refine List.prefix_of_prefix_length_le ⟨v, e.symm⟩ ⟨old, rfl⟩ ?_
  rw [List.length_append]
  exact length_le_of_blank e hc hold

/-- White space can go if a word that ends in something else does not reach behind it. -/
theorem clear_of_unreached {c : Char} (hc : Graft.isBlank c = false) (hold : isBlank old)
    (hreach : ∀ u v r, w ++ [c] = u ++ v → after = v ++ r → v = []) :
    Clear (w ++ [c]) before old after := by
  intro x y e
  rcases List.append_eq_append_iff.mp e with ⟨v, hx, rfl⟩ | ⟨v, hx, rfl⟩
  · rcases List.append_eq_append_iff.mp hx with ⟨z, hz, hv⟩ | ⟨z, rfl, -⟩
    · obtain rfl := hreach z v y hv rfl
      exact .inl (length_le_of_blank (v := []) (by simpa using hx.symm) hc hold)
    · exact .inr (by simp)
  · exact .inl (length_le_of_blank hx hc hold)

/-- White space that nothing but a newline, a closing brace or the end follows can go. -/
theorem clear_of_blank {c : Char} (hw : OneLine (w ++ [c])) (hc : Graft.isBlank c = false)
    (hold : isBlank old) (hafter : Stops after) : Clear (w ++ [c]) before old after := by
  refine clear_of_unreached hc hold ?_
  rintro u v r hv rfl
  exact OneLine.eq_nil_of_stops (OneLine.right (hv ▸ hw)) hafter

/-- Before a closing brace or the end, white space is clear of words on several lines too. -/
theorem clear_of_closing {c : Char} (hw : '}' ∉ w ++ [c]) (hc : Graft.isBlank c = false)
    (hold : isBlank old) (hafter : Closing after) : Clear (w ++ [c]) before old after := by
  refine clear_of_unreached hc hold ?_
  rintro u v r hv rfl
  rw [hv, List.mem_append, not_or] at hw
  exact hafter.eq_nil hw.2

/-- A word on one line that begins before some lines and is not in them ends before them. -/
theorem length_le_of_line {x v : Text} (e : before ++ old = x ++ w ++ v) (hnl : '\n' ∉ w)
    (hopen : '{' ∉ w) (hbefore : ∀ c, before.getLast? = some c → c = '\n' ∨ c = '{')
    (hold : ¬w <:+: old) : x.length + w.length ≤ before.length := by
  rw [List.append_assoc] at e
  rcases List.append_eq_append_iff.mp e with ⟨z, rfl, h⟩ | ⟨z, rfl, h⟩
  · exact absurd ⟨z, v, by rw [h]; simp⟩ hold
  · rcases List.append_eq_append_iff.mp h with ⟨z', rfl, h'⟩ | ⟨z', rfl, h'⟩
    · simp only [List.length_append]
      omega
    · by_cases hz : z = []
      · rw [hz, List.nil_append] at hold
        exact absurd ⟨[], v, by rw [h', List.nil_append]⟩ hold
      · exfalso
        have hlast : (x ++ z).getLast? = some (z.getLast hz) := by
          rw [List.getLast?_append, List.getLast?_eq_some_getLast hz, Option.some_or]
        have hmem : z.getLast hz ∈ z ++ z' := List.mem_append_left _ (List.getLast_mem hz)
        rcases hbefore _ hlast with h | h <;> rw [h] at hmem
        · exact hnl hmem
        · exact hopen hmem

/-- Whole lines that do not hold a word can go, on the first of them what follows an opening
brace. -/
theorem clear_of_line (hw : OneLine w) (hopen : '{' ∉ w)
    (hbefore : ∀ c, before.getLast? = some c → c = '\n' ∨ c = '{') (hold : ¬w <:+: old)
    (hafter : Stops after) : Clear w before old after := by
  intro x y e
  rcases List.append_eq_append_iff.mp e with ⟨v, hx, rfl⟩ | ⟨v, hx, rfl⟩
  · rcases List.append_eq_append_iff.mp hx with ⟨z, hz, hv⟩ | ⟨z, rfl, -⟩
    · obtain rfl := OneLine.eq_nil_of_stops (OneLine.right (hv ▸ hw)) hafter
      exact .inl (length_le_of_line (v := []) (by simpa using hx.symm) hw.1 hopen hbefore hold)
    · exact .inr (by simp)
  · exact .inl (length_le_of_line hx hw.1 hopen hbefore hold)

/-! ### Places -/

/-- Of two cuts through a text, the second one lies at or behind the first, or before it. -/
theorem append_cases {x y : Text} (e : p ++ q = x ++ y) :
    (∃ r, x = p ++ r ∧ q = r ++ y) ∨ ∃ r, r ≠ [] ∧ p = x ++ r ∧ y = r ++ q := by
  rcases List.append_eq_append_iff.mp e with h | ⟨r, hp, hy⟩
  · exact .inl h
  · by_cases hr : r = []
    · subst hr
      exact .inl ⟨[], by simpa using hp.symm, by simpa using hy.symm⟩
    · exact .inr ⟨r, hr, hp, hy⟩

/-- A cut through a text lies behind, before or inside a piece of it. -/
theorem cut_cases {x y : Text} (e : p ++ q = x ++ w ++ y) :
    (∃ r, p = x ++ w ++ r ∧ y = r ++ q) ∨ (∃ r, x = p ++ r ∧ q = r ++ w ++ y) ∨
      ∃ v z, v ≠ [] ∧ z ≠ [] ∧ w = v ++ z ∧ p = x ++ v ∧ q = z ++ y := by
  rcases List.append_eq_append_iff.mp e with ⟨z, hz, hq⟩ | ⟨z, hp, hy⟩
  · rcases List.append_eq_append_iff.mp hz with ⟨v, hp, hw⟩ | ⟨v, hx, hw⟩
    · by_cases hv : v = []
      · subst hv
        exact .inr (.inl ⟨[], by simpa using hp.symm, by rw [hq, hw]; rfl⟩)
      · by_cases hz0 : z = []
        · subst hz0
          rw [List.append_nil] at hw
          exact .inl ⟨[], by rw [hp, hw, List.append_nil], by simpa using hq.symm⟩
        · exact .inr (.inr ⟨v, z, hv, hz0, hw, hp, hq⟩)
    · exact .inr (.inl ⟨v, hx, by rw [hq, hw]⟩)
  · exact .inl ⟨z, hp, hy⟩

/-- A character lies before or after a text in which it does not occur. -/
theorem cases_of_cons_append {c : Char} {x y z v : Text} (e : x ++ c :: y = z ++ w ++ v)
    (hw : c ∉ w) :
    (∃ q, x = z ++ w ++ q ∧ v = q ++ c :: y) ∨ ∃ r, z = x ++ c :: r ∧ y = r ++ w ++ v := by
  rcases List.append_eq_append_iff.mp e with ⟨s, hs, hv⟩ | ⟨s, rfl, rfl⟩
  · cases s with
    | nil => exact .inl ⟨[], by simpa using hs.symm, by simpa using hv.symm⟩
    | cons d s =>
        obtain ⟨rfl, rfl⟩ := List.cons.inj hv
        rcases List.append_eq_append_iff.mp hs with ⟨r, -, rfl⟩ | ⟨r, rfl, hr⟩
        · exact absurd (by simp) hw
        · cases r with
          | nil => exact absurd (by rw [← List.nil_append w, ← hr]; simp) hw
          | cons d r =>
              obtain ⟨rfl, rfl⟩ := List.cons.inj hr
              exact .inr ⟨r, rfl, rfl⟩
  · exact .inl ⟨s, rfl, rfl⟩

/-- The beginning of a text lies before a character that does not occur in it. -/
theorem prefix_before {c : Char} {x y v : Text} (e : x ++ c :: y = w ++ v) (hw : c ∉ w) :
    ∃ q, x = w ++ q ∧ v = q ++ c :: y := by
  rcases cases_of_cons_append (z := []) e hw with h | ⟨r, hr, -⟩
  · exact h
  · simp at hr

/-- The end of a text lies behind a character that does not occur in it. -/
theorem suffix_behind {c : Char} {x y z : Text} (e : x ++ c :: y = z ++ w) (hw : c ∉ w) :
    ∃ r, z = x ++ c :: r ∧ y = r ++ w := by
  have e' : x ++ c :: y = z ++ w ++ [] := by rw [e, List.append_nil]
  rcases cases_of_cons_append e' hw with ⟨q, -, hq⟩ | ⟨r, hz, hy⟩
  · simp at hq
  · rw [List.append_nil] at hy
    exact ⟨r, hz, hy⟩

/-- A word lies on one side of a character that does not occur in it. -/
theorem infix_append_cons {c : Char} (hw : c ∉ w) (h : w <:+: p ++ c :: q) :
    w <:+: p ∨ w <:+: q := by
  obtain ⟨x, y, e⟩ := h
  rcases cases_of_cons_append e.symm hw with ⟨r, rfl, -⟩ | ⟨r, -, rfl⟩
  · exact .inl ⟨x, r, rfl⟩
  · exact .inr ⟨r, y, rfl⟩

/-- The first place of a character cuts a text in one way. -/
theorem append_cons_inj {c : Char} {x x' y y' : Text} (hx : c ∉ x) (hx' : c ∉ x')
    (e : x ++ c :: y = x' ++ c :: y') : x = x' ∧ y = y' := by
  rcases cases_of_cons_append (z := x') (v := c :: y') (by simpa using e) List.not_mem_nil with
    ⟨q, hq, hv⟩ | ⟨r, hr, -⟩
  · cases q with
    | nil => exact ⟨by simpa using hq, (List.cons.inj hv).2.symm⟩
    | cons d q =>
        obtain ⟨rfl, -⟩ := List.cons.inj hv
        exact absurd (by rw [hq]; simp) hx
  · exact absurd (by rw [hr]; simp) hx'

/-- The last place of a character cuts a text in one way. -/
theorem cons_append_inj {c : Char} {x x' y y' : Text} (hy : c ∉ y) (hy' : c ∉ y')
    (e : x ++ c :: y = x' ++ c :: y') : x = x' ∧ y = y' := by
  have e' : x ++ c :: y = (x' ++ [c]) ++ y' ++ [] := by simpa using e
  rcases cases_of_cons_append e' hy' with ⟨q, -, hq⟩ | ⟨r, hr, hy0⟩
  · simp at hq
  · rw [hy0, List.append_nil, List.mem_append, not_or] at hy
    rcases List.eq_nil_or_concat r with rfl | ⟨r, d, rfl⟩
    · exact ⟨(List.append_cancel_right hr).symm, by simpa using hy0⟩
    · have e2 : x' ++ [c] = (x ++ c :: r) ++ [d] := by simpa using hr
      obtain ⟨-, hlast⟩ := List.append_inj' e2 rfl
      obtain rfl := (List.cons.inj hlast).1
      exact absurd (by simp) hy.1

/-- A character is the first one of a word that begins with it, or lies behind the word. -/
theorem cases_of_word {c : Char} {u r x y : Text} (e : u ++ c :: w ++ r = x ++ c :: y) (hu : c ∉ u)
    (hw : c ∉ w) : (x = u ∧ y = w ++ r) ∨ ∃ z, x = u ++ c :: w ++ z ∧ r = z ++ c :: y := by
  have e' : x ++ c :: y = [] ++ u ++ (c :: w ++ r) := by rw [← e]; simp
  rcases cases_of_cons_append e' hu with ⟨q, rfl, hq⟩ | ⟨z, hz, -⟩
  · cases q with
    | nil => exact .inl ⟨by simp, (List.cons.inj hq).2.symm⟩
    | cons d q =>
        obtain ⟨rfl, htail⟩ := List.cons.inj hq
        have hrest : q ++ c :: y = [] ++ w ++ r := htail.symm
        rcases cases_of_cons_append hrest hw with ⟨z, rfl, hz⟩ | ⟨z, hz, -⟩
        · exact .inr ⟨z, by simp, hz⟩
        · simp at hz
  · simp at hz

/-- Where a place of the old text is in the new one. -/
def Moved (before old new a a' : Text) : Prop :=
  (a' = a ∧ a.length < before.length) ∨ ∃ z, a = before ++ old ++ z ∧ a' = before ++ new ++ z

/-- A place before the change stays where it is. -/
theorem moved_of_split {x z : Text} {c : Char} (h : before = a ++ x ++ c :: z) (old new : Text) :
    Moved before old new a a := by
  refine .inl ⟨rfl, ?_⟩
  rw [h]
  simp only [List.length_append, List.length_cons]
  omega

theorem Moved.symm (h : Moved before old new a a') : Moved before new old a' a := by
  rcases h with ⟨rfl, h⟩ | ⟨z, rfl, rfl⟩
  · exact .inl ⟨rfl, h⟩
  · exact .inr ⟨z, rfl, rfl⟩

theorem Moved.length_le {b b' : Text} (ha : Moved before old new a a')
    (hb : Moved before old new b b') (h : a.length ≤ b.length) : a'.length ≤ b'.length := by
  rcases ha with ⟨rfl, ha⟩ | ⟨x, rfl, rfl⟩ <;> rcases hb with ⟨rfl, hb⟩ | ⟨y, rfl, rfl⟩
  · exact h
  · simp only [List.length_append]
    omega
  · simp only [List.length_append] at h
    omega
  · simp only [List.length_append] at h ⊢
    omega

end Graft.Text
