import Graft.Proofs.Pattern.Find
import Graft.Proofs.Text.Change
import Graft.Proofs.Text.Line

/-! # What the patterns of this library take

Equations for the parts from which the library writes its patterns (`spans_lit`, `spans_blanks` and
so on), and what holds of *plain* patterns, those without conditions on the place: they take the
same texts everywhere (`Spans.plain`), so the leftmost match moves with a change of the text that no
match overlaps (`Leftmost.moved`). -/

namespace Graft.Pattern

open Text (AtLineStart LineEnds Moved)

variable {p q : Pattern} {a a' u b b' t : Text}

/-! ### Parts of patterns -/

theorem has_single {c d : Char} : (CharSet.single c).has d ↔ d = c := by
  have h : (CharSet.single c).has d ↔ c ≤ d ∧ d ≤ c := by
    simp [CharSet.has, CharSet.single, SetItem.has]
  rw [h]
  exact ⟨fun h => Char.le_antisymm h.2 h.1, fun h => h ▸ ⟨Char.le_refl _, Char.le_refl _⟩⟩

theorem has_range_iff {cs : List Char} {d : Char} :
    (cs.map fun c => SetItem.range c c).any (·.has d) ↔ d ∈ cs := by
  induction cs with
  | nil => simp
  | cons c cs ih =>
      have h := has_single (c := c) (d := d)
      simp only [CharSet.has, CharSet.single, List.any_cons, List.any_nil, Bool.or_false,
        Bool.bne_false] at h
      rw [List.map_cons, List.any_cons, Bool.or_eq_true, ih, h, List.mem_cons]

theorem has_oneOf {cs : List Char} {d : Char} : (CharSet.oneOf cs).has d ↔ d ∈ cs := by
  rw [← has_range_iff, CharSet.has, CharSet.oneOf]
  simp

theorem has_noneOf {cs : List Char} {d : Char} : (CharSet.noneOf cs).has d ↔ d ∉ cs := by
  rw [← has_range_iff, CharSet.has, CharSet.noneOf]
  simp

theorem spans_seq :
    (p ++ q).Spans a u b ↔ ∃ v w, u = v ++ w ∧ p.Spans a v (w ++ b) ∧ q.Spans (a ++ v) w b :=
  Iff.rfl

theorem spans_alt : (alt p q).Spans a u b ↔ p.Spans a u b ∨ q.Spans a u b := Iff.rfl

theorem spans_ofText {w : Text} : (ofText w).Spans a u b ↔ u = w := by
  induction w generalizing a u with
  | nil => exact Iff.rfl
  | cons c w ih =>
      rw [ofText, Spans]
      constructor
      · rintro ⟨v, x, rfl, ⟨d, hd, rfl⟩, hx⟩
        rw [has_single.mp hd, ih.mp hx]
        rfl
      · rintro rfl
        exact ⟨[c], w, rfl, ⟨c, has_single.mpr rfl, rfl⟩, ih.mpr rfl⟩

theorem spans_lit {s : String} : (lit s).Spans a u b ↔ u = s.toList := spans_ofText

theorem has_space (c : Char) : (⟨false, [.named .space false]⟩ : CharSet).has c = isBlank c := by
  simp [CharSet.has, SetItem.has, CharClass.has]

theorem spans_blanks : blanks.Spans a u b ↔ Text.isBlank u := by
  rw [blanks, Spans, Text.isBlank, List.all_eq_true, List.all_eq_true]
  simp only [has_space]

theorem spans_blanks1 : blanks1.Spans a u b ↔ u ≠ [] ∧ Text.isBlank u := by
  rw [blanks1, Spans, Text.isBlank, List.all_eq_true, List.all_eq_true]
  simp only [has_space]

theorem spans_indent : indent.Spans a u b ↔ u.all isIndent := by
  rw [indent, Spans, List.all_eq_true, List.all_eq_true]
  simp only [has_oneOf, isIndent, List.mem_cons, List.not_mem_nil, or_false, Bool.or_eq_true,
    beq_iff_eq]

theorem spans_restOfLine : restOfLine.Spans a u b ↔ '\n' ∉ u := by
  rw [restOfLine, Spans, List.all_eq_true]
  simp only [has_noneOf, List.mem_cons, List.not_mem_nil, or_false]
  exact ⟨fun h hm => h _ hm rfl, fun h c hc e => h (e ▸ hc)⟩

theorem spans_star {cs : CharSet} {greedy : Bool} :
    (star greedy (set cs)).Spans a u b ↔ u.all cs.has := Iff.rfl

theorem spans_plus {cs : CharSet} {greedy : Bool} :
    (plus greedy (set cs)).Spans a u b ↔ u ≠ [] ∧ u.all cs.has := Iff.rfl

theorem all_noneOf {c : Char} : u.all (CharSet.noneOf [c]).has ↔ c ∉ u := by
  rw [List.all_eq_true]
  simp only [has_noneOf, List.mem_singleton]
  exact ⟨fun h hc => h c hc rfl, fun h d hd e => h (e ▸ hd)⟩

theorem all_all : u.all CharSet.all.has := List.all_eq_true.mpr fun _ _ => rfl

theorem all_space : u.all (⟨false, [.named .space false]⟩ : CharSet).has = Text.isBlank u := by
  rw [Text.isBlank]
  congr 1
  exact funext has_space

theorem spans_assert {x : Assertion} :
    (assert x).Spans a u b ↔ u = [] ∧ x.holds a.getLast? b.head? := Iff.rfl

theorem spans_group {i : Nat} : (group i p).Spans a u b ↔ p.Spans a u b := Iff.rfl

theorem holds_lineStart : Assertion.lineStart.holds a.getLast? b.head? ↔ AtLineStart a := by
  rw [Assertion.holds, AtLineStart]
  cases h : a.getLast? with
  | none => simpa using h
  | some c =>
      have hne : a ≠ [] := by
        rintro rfl
        simp at h
      simp [hne]

theorem holds_lineEnd : Assertion.lineEnd.holds a.getLast? b.head? ↔ LineEnds b := by
  rw [Assertion.holds, LineEnds]
  cases b.head? <;> simp

theorem flat_ofText (w : Text) : (ofText w).Flat := by
  induction w with
  | nil => trivial
  | cons c w ih => exact ⟨trivial, ih⟩

/-! ### Plain patterns -/

/-- Patterns without conditions on the place. -/
def Plain : Pattern → Prop
  | empty | set _ => True
  | assert _ => False
  | seq p q | alt p q => p.Plain ∧ q.Plain
  | copies _ p | upTo _ _ p | star _ p | plus _ p | group _ p => p.Plain

theorem plain_ofText (w : Text) : (ofText w).Plain := by
  induction w with
  | nil => trivial
  | cons c w ih => exact ⟨trivial, ih⟩

theorem Spans.plain (hp : p.Plain) (h : p.Spans a u b) (a' b' : Text) : p.Spans a' u b' := by
  induction p generalizing a u b a' b' with
  | empty => exact h
  | set cs => exact h
  | assert x => exact hp.elim
  | seq p q ihp ihq =>
      obtain ⟨v, w, rfl, h1, h2⟩ := h
      exact ⟨v, w, rfl, ihp hp.1 h1 _ _, ihq hp.2 h2 _ _⟩
  | alt p q ihp ihq => exact h.imp (fun h => ihp hp.1 h _ _) fun h => ihq hp.2 h _ _
  | group i p ih => exact ih hp h _ _
  | star greedy p _ =>
      cases p with
      | set cs => exact h
      | _ => exact h.elim
  | plus greedy p _ =>
      cases p with
      | set cs => exact h
      | _ => exact h.elim
  | copies => exact h.elim
  | upTo => exact h.elim

/-! ### Leftmost matches -/

/-- The first place where the pattern can match. -/
def Leftmost (p : Pattern) (t a : Text) : Prop :=
  (∃ u b, t = a ++ u ++ b ∧ p.Spans a u b) ∧
    ∀ a' u' b', t = a' ++ u' ++ b' → p.Spans a' u' b' → a.length ≤ a'.length

theorem Leftmost.prefix (h : p.Leftmost t a) : a <+: t := by
  obtain ⟨⟨u, b, rfl, -⟩, -⟩ := h
  exact ⟨u ++ b, by simp⟩

theorem Leftmost.unique (h : p.Leftmost t a) (h' : p.Leftmost t a') : a = a' := by
  obtain ⟨⟨u, b, e, hu⟩, hleast⟩ := id h
  obtain ⟨⟨u', b', e', hu'⟩, hleast'⟩ := id h'
  have hlen := Nat.le_antisymm (hleast a' u' b' e' hu') (hleast' a u b e hu)
  exact List.IsPrefix.eq_of_length
    (List.prefix_of_prefix_length_le h.prefix h'.prefix (Nat.le_of_eq hlen)) hlen

theorem exists_leftmost (hp : p.Flat) {m : Match} (h : p.find? t = some m) :
    ∃ a, p.Leftmost t a ∧ m.start = a.length := by
  obtain ⟨a, u, b, gs, hfirst, rfl⟩ := exists_first_of_find?_eq_some hp h
  exact ⟨a, ⟨⟨u, b, hfirst.split, hfirst.spans⟩, hfirst.least⟩, by simp [Match.ofSpot]⟩

theorem Leftmost.find? (hp : p.Flat) (h : p.Leftmost t a) :
    ∃ m, p.find? t = some m ∧ m.start = a.length := by
  obtain ⟨⟨u, b, e, hu⟩, hleast⟩ := h
  obtain ⟨u', b', gs, -, -, hfind⟩ := exists_first hp e hu hleast
  exact ⟨_, hfind, by simp [Match.ofSpot]⟩

variable {before old new after : Text}

/-- No match of the pattern overlaps the middle of the text. -/
def Untouched (p : Pattern) (before old after : Text) : Prop :=
  ∀ a u b, before ++ old ++ after = a ++ u ++ b → p.Spans a u b →
    a.length + u.length ≤ before.length ∨ before.length + old.length ≤ a.length

/-- A text that does not overlap the old one is in the new one as well. -/
theorem exists_moved (e : before ++ old ++ after = a ++ u ++ b) (hu : u ≠ [])
    (h : a.length + u.length ≤ before.length ∨ before.length + old.length ≤ a.length)
    (new : Text) :
    (∃ z, before = a ++ u ++ z ∧ Moved before old new a a ∧
        before ++ new ++ after = a ++ u ++ (z ++ new ++ after)) ∨
      ∃ z, a = before ++ old ++ z ∧ after = z ++ u ++ b ∧
        Moved before old new a (before ++ new ++ z) ∧
        before ++ new ++ after = (before ++ new ++ z) ++ u ++ b := by
  rcases h with h | h
  · have hpre : a ++ u <+: before :=
      List.prefix_of_prefix_length_le ⟨b, e.symm⟩ ⟨old ++ after, by simp⟩ (by simpa using h)
    obtain ⟨z, rfl⟩ := hpre
    have hlen := List.length_pos_iff.mpr hu
    exact .inl ⟨z, rfl, .inl ⟨rfl, by simp only [List.length_append]; omega⟩, by simp⟩
  · have hpre : before ++ old <+: a :=
      List.prefix_of_prefix_length_le ⟨after, rfl⟩ ⟨u ++ b, by rw [e]; simp⟩ (by simpa using h)
    obtain ⟨z, rfl⟩ := hpre
    have e' : after = z ++ u ++ b := by simpa using e
    exact .inr ⟨z, rfl, e', .inr ⟨z, rfl, rfl⟩, by rw [e']; simp⟩

theorem Leftmost.moved (hp : p.Plain) (hne : ¬p.Spans [] [] [])
    (h : p.Leftmost (before ++ old ++ after) a) (ha : Moved before old new a a')
    (hself : ∃ u b, before ++ new ++ after = a' ++ u ++ b ∧ p.Spans a' u b)
    (hnew : p.Untouched before new after) : p.Leftmost (before ++ new ++ after) a' := by
  refine ⟨hself, fun c u b e hu => ?_⟩
  have hu0 : u ≠ [] := by
    rintro rfl
    exact hne (hu.plain hp _ _)
  rcases exists_moved e hu0 (hnew c u b e hu) old with ⟨z, -, hm, e'⟩ | ⟨z, -, -, hm, e'⟩
  · exact ha.length_le hm.symm (h.2 _ _ _ e' (hu.plain hp _ _))
  · exact ha.length_le hm.symm (h.2 _ _ _ e' (hu.plain hp _ _))

end Graft.Pattern
