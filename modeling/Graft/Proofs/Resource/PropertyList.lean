import Graft.Proofs.Pattern.Prefer
import Graft.Proofs.Resource.Draft
import Graft.Resource.PropertyList
import Graft.Resource.StringTable

/-! # Writing entries into property lists

A property list in which every string is closed before the next tag is laid out as pairs of a key
and a string.  Writing entries into it does to the pairs that are found what `upsert` does to a list
of entries (`putAll_upserts_pairs`). -/

namespace Graft.PropertyList

open Markup (Tagless Ending Form Slot Writer)
open Markup.Draft (entries upsertAll)
open StringTable (groupText)

/-! ### Pairs -/

def keyStart : Text := ['<', 'k', 'e', 'y', '>']

def keyEnd : Text := ['<', '/', 'k', 'e', 'y', '>']

def stringStart : Text := ['<', 's', 't', 'r', 'i', 'n', 'g', '>']

def stringEnd : Text := ['<', '/', 's', 't', 'r', 'i', 'n', 'g', '>']

theorem toList_keyStart : "<key>".toList = keyStart := rfl

theorem toList_keyEnd : "</key>".toList = keyEnd := rfl

theorem toList_stringStart : "<string>".toList = stringStart := rfl

theorem toList_stringEnd : "</string>".toList = stringEnd := rfl

/-- A key with a string as its value, and the white space between them. -/
structure Pair where
  key : Text
  space : Text
  value : Text

variable {a b g r t u v w x y : Text}

namespace Pair

variable {i : Pair}

/-- What comes before the value. -/
def head (i : Pair) : Text := keyStart ++ i.key ++ keyEnd ++ i.space ++ stringStart

def text (i : Pair) : Text := i.head ++ i.value ++ stringEnd

/-- The parts before the value are found as they were written. -/
structure Keyed (i : Pair) : Prop where
  key_ne : i.key ≠ []
  key : '<' ∉ i.key
  space : i.space.isBlank

/-- The pair is found as it was written. -/
structure Good (i : Pair) : Prop extends Keyed i where
  value : '<' ∉ i.value

theorem text_append (i : Pair) (b : Text) : i.text ++ b = keyStart ++ (i.key ++
    (keyEnd ++ (i.space ++ (stringStart ++ (i.value ++ (stringEnd ++ b)))))) := by
  simp only [text, head, List.append_assoc]

section

open Pattern

theorem spans_pair : pair.Spans a u b ↔ ∃ i : Pair, i.Keyed ∧ u = i.text := by
  unfold pair
  simp only [spans_seq, spans_lit, spans_blanks, spans_group, spans_star, spans_plus, all_noneOf,
    toList_keyStart, toList_keyEnd, toList_stringStart, toList_stringEnd]
  constructor
  · rintro ⟨-, -, rfl, ⟨-, value, rfl, ⟨-, -, rfl, ⟨-, space, rfl, ⟨-, -, rfl,
      ⟨-, key, rfl, rfl, hne, hkey⟩, rfl⟩, hspace⟩, rfl⟩, -⟩, rfl⟩
    exact ⟨⟨key, space, value⟩, ⟨hne, hkey, hspace⟩, rfl⟩
  · rintro ⟨i, hi, rfl⟩
    exact ⟨_, _, rfl, ⟨_, _, rfl, ⟨_, _, rfl, ⟨_, _, rfl, ⟨_, _, rfl,
      ⟨_, _, rfl, rfl, hi.key_ne, hi.key⟩, rfl⟩, hi.space⟩, rfl⟩, all_all⟩, rfl⟩

/-- What the groups record of the pair behind a text. -/
def groups (a : Text) (i : Pair) : List (Nat × Text × Text) :=
  [(2, (a ++ i.head).reverse, (a ++ i.head ++ i.value).reverse),
    (1, (a ++ keyStart).reverse, (a ++ keyStart ++ i.key).reverse)]

theorem best_text (hi : i.Good) (a b : Text) :
    (pair.ways ⟨a.reverse, i.text ++ b, []⟩).head? =
      some ⟨(a ++ i.text).reverse, b, i.groups a⟩ := by
  rw [head?_ways, text_append]
  unfold pair
  iterate 6 rw [prefer_seq]
  rw [prefer_lit toList_keyStart, prefer_group]
  refine prefer_plus_greedy hi.key_ne (all_noneOf.mpr hi.key) ?_ ?_
  · rintro c ⟨⟩
    rfl
  rw [Spot.close, prefer_lit toList_keyEnd]
  refine prefer_star_greedy ?_ ?_ ?_
  · rw [all_space]
    exact hi.space
  · rintro c ⟨⟩
    rfl
  rw [prefer_lit toList_stringStart, prefer_group]
  refine prefer_star_lazy all_all ?_ ?_
  · -- The end of the string is not found inside the value, which has no tag.
    intro v c w e
    refine prefer_lit_eq_none fun h => hi.value ?_
    rw [toList_stringEnd] at h
    obtain ⟨rfl, -⟩ := List.cons_prefix_cons.mp h
    rw [e]
    simp
  · rw [Spot.close, prefer_lit toList_stringEnd]
    simp [groups, head, text]

end

/-- A tag that begins inside the part before the value is one of its tags. -/
theorem cases_of_head (hi : i.Keyed) (e : i.head ++ r = x ++ '<' :: y) (hx : x ≠ []) :
    keyEnd <+: '<' :: y ∨ stringStart <+: '<' :: y ∨ ∃ z, x = i.head ++ z ∧ r = z ++ '<' :: y := by
  have e1 : [] ++ '<' :: (['k', 'e', 'y', '>'] ++ i.key) ++
      (keyEnd ++ (i.space ++ (stringStart ++ r))) = x ++ '<' :: y := by
    rw [← e]
    simp [head, keyStart]
  have hkey : '<' ∉ ['k', 'e', 'y', '>'] ++ i.key := by
    rw [List.mem_append, not_or]
    exact ⟨by decide, hi.key⟩
  have hspace : '<' ∉ ['/', 'k', 'e', 'y', '>'] ++ i.space := by
    rw [List.mem_append, not_or]
    refine ⟨by decide, fun hmem => ?_⟩
    exact absurd (List.all_eq_true.mp hi.space '<' hmem) (by decide)
  rcases Text.cases_of_word e1 List.not_mem_nil hkey with ⟨h, -⟩ | ⟨z1, rfl, h1⟩
  · exact absurd h hx
  have e2 : [] ++ '<' :: (['/', 'k', 'e', 'y', '>'] ++ i.space) ++ (stringStart ++ r) =
      z1 ++ '<' :: y := by
    rw [← h1]
    simp [keyEnd]
  rcases Text.cases_of_word e2 List.not_mem_nil hspace with ⟨-, rfl⟩ | ⟨z2, rfl, h2⟩
  · exact .inl ⟨i.space ++ (stringStart ++ r), by simp [keyEnd]⟩
  have e3 : [] ++ '<' :: ['s', 't', 'r', 'i', 'n', 'g', '>'] ++ r = z2 ++ '<' :: y := h2
  rcases Text.cases_of_word e3 List.not_mem_nil (by decide) with ⟨-, rfl⟩ | ⟨z3, rfl, h3⟩
  · exact .inr (.inl ⟨r, rfl⟩)
  · exact .inr (.inr ⟨z3, by simp [head, keyStart, keyEnd, stringStart], h3⟩)

/-- A tag that begins behind the start of a pair is one of its tags, or begins behind the pair. -/
theorem cases_of_text (hi : i.Good) (e : i.text ++ b = x ++ '<' :: y) (hx : x ≠ []) :
    keyEnd <+: '<' :: y ∨ stringStart <+: '<' :: y ∨ stringEnd <+: '<' :: y ∨ i.text <+: x := by
  have e1 : i.head ++ (i.value ++ stringEnd ++ b) = x ++ '<' :: y := by
    rw [← e, text]
    simp
  rcases cases_of_head hi.toKeyed e1 hx with h | h | ⟨z, rfl, hz⟩
  · exact .inl h
  · exact .inr (.inl h)
  rcases Text.cases_of_word (w := ['/', 's', 't', 'r', 'i', 'n', 'g', '>']) hz hi.value (by decide)
    with ⟨-, rfl⟩ | ⟨z', rfl, -⟩
  · exact .inr (.inr (.inl ⟨b, rfl⟩))
  · exact .inr (.inr (.inr ⟨z', by simp [text, stringEnd]⟩))

end Pair

/-! ### Closed texts -/

/-- Every string is closed before the next tag. -/
def Closed (t : Text) : Prop :=
  ∀ a b, t = a ++ stringStart ++ b → ∃ v c, b = v ++ stringEnd ++ c ∧ '<' ∉ v

/-- Whether the text is one without tags and then the end of a string. -/
def endsString (t : Text) : Bool := stringEnd.isPrefixOf (t.dropWhile (· ≠ '<'))

theorem endsString_iff : endsString t ↔ ∃ v c, t = v ++ stringEnd ++ c ∧ '<' ∉ v := by
  rw [endsString, List.isPrefixOf_iff_prefix]
  constructor
  · rintro ⟨c, hc⟩
    refine ⟨t.takeWhile (· ≠ '<'), c, ?_, fun hmem => ?_⟩
    · rw [List.append_assoc, hc, List.takeWhile_append_dropWhile]
    · have := List.all_eq_true.mp (List.all_takeWhile (p := (· ≠ '<')) (l := t)) _ hmem
      simp at this
  · rintro ⟨v, c, rfl, hv⟩
    rw [List.append_assoc, List.dropWhile_append_of_pos]
    · exact ⟨c, rfl⟩
    · intro d hd
      rw [decide_eq_true_eq]
      rintro rfl
      exact hv hd

/-- Whether every string is closed before the next tag. -/
def isClosed : Text → Bool
  | [] => true
  | c :: t => ((Text.after? stringStart (c :: t)).all endsString) && isClosed t

theorem isClosed_iff : isClosed t ↔ Closed t := by
  induction t with
  | nil =>
      refine ⟨fun _ a b e => ?_, fun _ => rfl⟩
      simp [stringStart] at e
  | cons c t ih =>
      rw [isClosed, Bool.and_eq_true, ih, Option.all_eq_true]
      constructor
      · rintro ⟨hfirst, hrest⟩ (_ | ⟨d, a⟩) b e
        · exact endsString_iff.mp (hfirst b (Text.after?_eq_some_iff.mpr e))
        · exact hrest a b (List.cons.inj e).2
      · intro h
        refine ⟨fun b hb => endsString_iff.mpr (h [] b (Text.after?_eq_some_iff.mp hb)), ?_⟩
        rintro a b rfl
        exact h (c :: a) b rfl

instance (t : Text) : Decidable (Closed t) := decidable_of_iff _ isClosed_iff

theorem Closed.right (h : Closed (u ++ v)) : Closed v := by
  rintro a b rfl
  exact h (u ++ a) b (by simp)

/-- The strings of a text are closed before white space and a tag that closes no string. -/
theorem Closed.left (h : Closed (x ++ (w ++ '<' :: r))) (hw : w.isBlank)
    (hr : ¬['/', 's', 't', 'r', 'i', 'n', 'g', '>'] <+: r) : Closed x := by
  rintro a y rfl
  obtain ⟨v, c, e, hv⟩ := h a (y ++ (w ++ '<' :: r)) (by simp)
  rw [← List.append_assoc] at e
  rcases Text.cases_of_word (w := ['/', 's', 't', 'r', 'i', 'n', 'g', '>']) e.symm hv (by decide)
    with ⟨-, rfl⟩ | ⟨z, hz, -⟩
  · exact absurd ⟨c, rfl⟩ hr
  · obtain ⟨z', rfl⟩ := Text.prefix_of_blank (w := ['<', '/', 's', 't', 'r', 'i', 'n', 'g']) hz
      (by decide) hw
    exact ⟨v, z', rfl, hv⟩

theorem Closed.append_blank (h : Closed x) (hw : w.isBlank) : Closed (x ++ w) := by
  intro a b e
  obtain ⟨z, rfl⟩ := Text.prefix_of_blank (w := ['<', 's', 't', 'r', 'i', 'n', 'g']) e (by decide) hw
  obtain ⟨v, c, rfl, hv⟩ := h a z rfl
  refine ⟨v, c ++ w, ?_, hv⟩
  have e' : a ++ stringStart ++ (v ++ stringEnd ++ c ++ w) = a ++ stringStart ++ b := by
    rw [← e]
    simp [stringStart]
  rw [← List.append_cancel_left e', List.append_assoc]

theorem closed_nil : Closed [] := by
  intro a b e
  simp [stringStart] at e

/-- Nothing in the text begins a pair, and its strings are closed. -/
structure Quiet (g : Text) : Prop where
  closed : Closed g
  noHead : ∀ x (i : Pair) y, i.Keyed → g ≠ x ++ i.head ++ y

theorem quiet_nil : Quiet [] := by
  refine ⟨closed_nil, fun x i y _ e => ?_⟩
  simp [Pair.head, keyStart] at e

theorem Quiet.right (h : Quiet (u ++ v)) : Quiet v := by
  refine ⟨h.closed.right, ?_⟩
  rintro x i y hi rfl
  exact h.noHead (u ++ x) i y hi (by simp)

theorem Quiet.newline (h : Quiet t) : Quiet ('\n' :: t) := by
  constructor
  · rintro (_ | ⟨c, a⟩) b e
    · exact absurd (List.cons.inj e).1 (by decide)
    · exact h.closed a b (List.cons.inj e).2
  · rintro (_ | ⟨c, x⟩) i y hi e
    · exact absurd (List.cons.inj e).1 (by decide)
    · exact h.noHead x i y hi (List.cons.inj e).2

theorem head_eq_concat (i : Pair) : ∃ w, i.head = w ++ ['>'] :=
  ⟨keyStart ++ i.key ++ keyEnd ++ i.space ++ ['<', 's', 't', 'r', 'i', 'n', 'g'], by
    simp [Pair.head, stringStart]⟩

theorem Quiet.append_blank (h : Quiet x) (hw : w.isBlank) : Quiet (x ++ w) := by
  refine ⟨h.closed.append_blank hw, fun a i b hi e => ?_⟩
  obtain ⟨u, hu⟩ := head_eq_concat i
  rw [hu] at e
  obtain ⟨z, hz⟩ := Text.prefix_of_blank e (by decide) hw
  rw [← hu] at hz
  exact h.noHead a i z hi hz.symm

theorem Quiet.left (h : Quiet (x ++ (w ++ '<' :: r))) (hw : w.isBlank)
    (hr : ¬['/', 's', 't', 'r', 'i', 'n', 'g', '>'] <+: r) : Quiet x := by
  refine ⟨h.closed.left hw hr, ?_⟩
  rintro a i b hi rfl
  exact h.noHead a i (b ++ (w ++ '<' :: r)) hi (by simp)

/-! ### The form -/

theorem getLast?_text (i : Pair) : i.text.getLast? = some '>' := by
  rw [Pair.text, List.getLast?_append]
  rfl

theorem Quiet.length_le (hg : Quiet g) {i : Pair} {b' : Text}
    (e : g ++ i.text ++ b = v ++ u ++ b') (hu : pair.Spans a u b') : g.length ≤ v.length := by
  obtain ⟨j, hj, rfl⟩ := Pair.spans_pair.mp hu
  rw [List.append_assoc, List.append_assoc] at e
  rcases List.append_eq_append_iff.mp e with ⟨z, rfl, -⟩ | ⟨z, rfl, hz⟩
  · simp
  · by_cases hz0 : z = []
    · simp [hz0]
    · -- The key of the pair behind the text cannot begin inside the head of the other pair.
      exfalso
      obtain ⟨r, hr⟩ : ∃ r, i.text ++ b = '<' :: 'k' :: r := ⟨_, Pair.text_append i b⟩
      rw [hr, Pair.text, List.append_assoc, List.append_assoc] at hz
      rcases Pair.cases_of_head hj hz hz0 with h | h | ⟨q, rfl, -⟩
      · obtain ⟨-, h⟩ := List.cons_prefix_cons.mp h
        exact absurd (List.cons_prefix_cons.mp h).1 (by decide)
      · obtain ⟨-, h⟩ := List.cons_prefix_cons.mp h
        exact absurd (List.cons_prefix_cons.mp h).1 (by decide)
      · exact hg.noHead v j q hj (by simp)

theorem not_spans_of_quiet (hg : Quiet g) {v u b : Text} (e : g = v ++ u ++ b) :
    ¬pair.Spans a u b := by
  intro hu
  obtain ⟨j, hj, rfl⟩ := Pair.spans_pair.mp hu
  exact hg.noHead v j (j.value ++ stringEnd ++ b) hj (by rw [e, Pair.text]; simp)

theorem flat_pair : pair.Flat :=
  ⟨⟨⟨⟨⟨⟨Pattern.flat_ofText _, trivial⟩, Pattern.flat_ofText _⟩, trivial⟩, Pattern.flat_ofText _⟩,
    trivial⟩, Pattern.flat_ofText _⟩

theorem taking_pair : pair.Taking := by
  intro a b h
  obtain ⟨i, -, hi⟩ := Pair.spans_pair.mp h
  have := congrArg List.getLast? hi
  rw [getLast?_text] at this
  exact nomatch this

/-- How property lists write their pairs. -/
def form : Form Pair where
  name i := Text.trim i.key
  set i v := { i with value := v }
  name_set _ _ := rfl
  set_set _ _ _ := rfl
  value i := i.value
  text := Pair.text
  pattern := pair
  groups := Pair.groups
  tag := closingTag
  Good := Pair.Good
  Quiet := Quiet
  value_set _ _ := rfl
  good_set i v hi hv := ⟨⟨hi.key_ne, hi.key, hi.space⟩, hv.1⟩
  flat := flat_pair
  taking := taking_pair
  tag_ne := by decide
  last i _ := getLast?_text i
  best i a b hi := Pair.best_text hi a b
  quiet_item g i hg _ a b v u b' e hu := hg.length_le e hu
  quiet_tail g hg a v u b e := not_spans_of_quiet hg e
  quiet_front front back s h hback hs := by
    obtain ⟨w, z, rfl, hw, -⟩ := hback
    have h' : Quiet (front ++ (w ++ '<' :: (['/', 'd', 'i', 'c', 't', '>'] ++ z))) := by
      rw [List.append_assoc] at h
      exact h
    exact (h'.left hw fun hpre => absurd (List.cons_prefix_cons.mp (List.cons_prefix_cons.mp hpre).2).1
      (by decide)).append_blank hs
  quiet_back front back h := h.right.newline
  quiet_blank s hs := quiet_nil.append_blank hs

/-! ### What the groups hold -/

variable {i : Pair} {n : Text}

theorem group?_key (a : Text) (i : Pair) : (form.found a i).group? 1 =
    some ((a ++ keyStart).length, (a ++ keyStart).length + i.key.length) := by
  have h : (form.found a i).group? 1 =
      some ((a ++ keyStart).reverse.length, (a ++ keyStart ++ i.key).reverse.length) := rfl
  rw [h, Form.span_append]

theorem group?_value (a : Text) (i : Pair) : (form.found a i).group? 2 =
    some ((a ++ i.head).length, (a ++ i.head).length + i.value.length) := by
  have h : (form.found a i).group? 2 =
      some ((a ++ i.head).reverse.length, (a ++ i.head ++ i.value).reverse.length) := rfl
  rw [h, Form.span_append]

theorem slice_key (a : Text) (i : Pair) (b : Text) : Text.slice (a ++ i.text ++ b)
    (a ++ keyStart).length ((a ++ keyStart).length + i.key.length) = i.key := by
  have e : a ++ i.text ++ b = a ++ keyStart ++ i.key ++
      (keyEnd ++ i.space ++ stringStart ++ i.value ++ stringEnd ++ b) := by
    simp [Pair.text, Pair.head]
  rw [e, Text.slice_append]

theorem text_eq (a : Text) (i : Pair) (b : Text) :
    a ++ i.text ++ b = a ++ i.head ++ i.value ++ (stringEnd ++ b) := by
  simp [Pair.text]

theorem slice_value (a : Text) (i : Pair) (b : Text) : Text.slice (a ++ i.text ++ b)
    (a ++ i.head).length ((a ++ i.head).length + i.value.length) = i.value := by
  rw [text_eq, Text.slice_append]

theorem replaceRange_value (a : Text) (i : Pair) (b v : Text) :
    Text.replaceRange (a ++ i.text ++ b) (a ++ i.head).length
      ((a ++ i.head).length + i.value.length) v = a ++ (form.set i v).text ++ b := by
  rw [text_eq, Text.replaceRange_append]
  simp [form, Pair.text, Pair.head]

theorem reads_name (t n : Text) : form.Reads
    (fun m => (m.group? 1).any fun s => decide (Text.trim (t.slice s.1 s.2) = n))
    (fun i => decide (form.name i = n)) t := by
  rintro a i b _ rfl
  have h := slice_key a i b
  simp only [group?_key, Option.any_some]
  rw [show form.text i = i.text from rfl, h]
  rfl

/-- The entries that are found in a property list. -/
def entriesOf (t : Text) : List ResourceEntry :=
  (pair.findAll t).map fun m => .ofTexts (Text.trim (groupText m 1 t)) (groupText m 2 t)

theorem entriesOf_text {ss : List (Slot Pair)} {tail : Text} (hss : form.Fair ss)
    (htail : Quiet tail) : entriesOf (form.slotsText ss ++ tail) = entries form ss := by
  have hreads : form.Reads (fun m => ResourceEntry.ofTexts
      (Text.trim (groupText m 1 (form.slotsText ss ++ tail)))
        (groupText m 2 (form.slotsText ss ++ tail)))
      (fun i => .ofTexts (form.name i) (form.value i)) (form.slotsText ss ++ tail) := by
    intro a i b _ e
    simp only [groupText, group?_key, group?_value, e]
    have h1 := slice_key a i b
    have h2 := slice_value a i b
    rw [show form.text i = i.text from rfl, h1, h2]
    rfl
  have hfind : pair.findAll (form.slotsText ss ++ tail) = form.foundAll [] ss :=
    Form.findAll_text hss htail
  rw [entriesOf, hfind, Form.map_foundAll hreads hss rfl]
  rfl

/-! ### Writing -/

/-- The entry has a name that a key can have. -/
def Named (e : ResourceEntry) : Prop := e.name ≠ [] ∧ '<' ∉ e.name ∧ Text.trim e.name = e.name

instance (e : ResourceEntry) : Decidable (Named e) := inferInstanceAs (Decidable (_ ∧ _ ∧ _))

/-- A pair on two lines that begin with the same white space. -/
structure Line (indent : Text) (i : Pair) : Prop extends Pair.Good i where
  blank : indent.isBlank
  space_eq : i.space = '\n' :: indent

theorem findValue?_of_split {as bs : List (Slot Pair)} {s : Slot Pair} {tail n : Text}
    (hss : form.Fair (as ++ s :: bs)) (htail : Quiet tail)
    (has : ∀ s' ∈ as, form.slots.name s' ≠ n) (hs : form.slots.name s = n) :
    findValue? n (form.slotsText (as ++ s :: bs) ++ tail) =
      (form.found (form.slotsText as ++ s.gap) s.item).group? 2 := by
  have hfind : pair.findAll (form.slotsText (as ++ s :: bs) ++ tail) =
      form.foundAll [] (as ++ s :: bs) := Form.findAll_text hss htail
  rw [findValue?, hfind, Form.find?_foundAll_of_split (reads_name _ n) hss rfl has hs]
  rfl

theorem findValue?_of_absent {ss : List (Slot Pair)} {tail n : Text}
    (hss : form.Fair ss) (htail : Quiet tail) (habsent : ∀ s ∈ ss, form.slots.name s ≠ n) :
    findValue? n (form.slotsText ss ++ tail) = none := by
  have hfind : pair.findAll (form.slotsText ss ++ tail) = form.foundAll [] ss :=
    Form.findAll_text hss htail
  have hnone := Form.find?_foundAll_of_absent (a := []) (b := tail)
    (reads_name (form.slotsText ss ++ tail) n) hss rfl habsent
  rw [findValue?, hfind, hnone]
  rfl

theorem isBlank_indentAt (t : Text) (pos : Nat) : (t.indentAt pos).isBlank :=
  List.all_eq_true.mpr fun c hc => isBlank_of_isIndent (List.all_eq_true.mp List.all_takeWhile c hc)

theorem put_of_split (as : List (Slot Pair)) (s : Slot Pair) (bs : List (Slot Pair)) (tail : Text)
    (e : ResourceEntry) (hss : form.Fair (as ++ s :: bs)) (htail : Quiet tail)
    (has : ∀ s' ∈ as, form.slots.name s' ≠ e.name) (hs : form.slots.name s = e.name) :
    put (form.slotsText (as ++ s :: bs) ++ tail) e =
      form.slotsText (as ++ form.slots.set s (Markup.escape e.value) :: bs) ++ tail := by
  have etext (s : Slot Pair) : form.slotsText (as ++ s :: bs) ++ tail =
      form.slotsText as ++ s.gap ++ s.item.text ++ (form.slotsText bs ++ tail) := by
    rw [Form.slotsText_append, Form.slotsText_cons]
    simp [form]
  rw [put, findValue?_of_split hss htail has hs, group?_value]
  simp only
  rw [etext, replaceRange_value, etext]
  rfl

theorem render_eq (l n v : Text) :
    render l n v = l ++ (⟨n, '\n' :: l, v⟩ : Pair).text ++ ['\n'] := by
  have hkey : "</key>\n".toList = keyEnd ++ ['\n'] := rfl
  have hstring : "</string>\n".toList = stringEnd ++ ['\n'] := rfl
  rw [render, toList_keyStart, hkey, toList_stringStart, hstring]
  simp [Pair.text, Pair.head]

theorem put_of_absent (ss : List (Slot Pair)) (tail : Text) (e : ResourceEntry) (he : Named e)
    (hss : form.Fair ss) (htail : Quiet tail) (habsent : ∀ s ∈ ss, form.slots.name s ≠ e.name) :
    ∃ l i, Line l i ∧ form.name i = e.name ∧ form.value i = Markup.escape e.value ∧
      form.set i (Markup.escape e.value) = i ∧
      put (form.slotsText ss ++ tail) e = Markup.insertLines (form.slotsText ss ++ tail)
        (Markup.closingTagPos form.tag (form.slotsText ss ++ tail)) (l ++ form.text i ++ ['\n']) := by
  obtain ⟨hne, hbare, htrim⟩ := he
  have hblank (pos : Nat) : Text.isBlank (Text.indentAt (form.slotsText ss ++ tail) pos ++ ['\t']) :=
    Text.isBlank_append.mpr ⟨isBlank_indentAt _ _, by decide⟩
  refine ⟨_, ⟨e.name, '\n' :: (Text.indentAt (form.slotsText ss ++ tail)
    (Markup.closingTagPos closingTag (form.slotsText ss ++ tail)) ++ ['\t']), Markup.escape e.value⟩,
    ⟨⟨⟨hne, hbare, ?_⟩, (Markup.tagless_escape e.value).1⟩, hblank _, rfl⟩, htrim, rfl, rfl, ?_⟩
  · exact hblank _
  · rw [put, findValue?_of_absent hss htail habsent]
    simp only
    rw [render_eq]
    rfl

/-- How entries are written into property lists. -/
def writer : Writer Pair where
  toForm := form
  put := put
  Named := Named
  Line := Line
  line_blank _ _ h := h.blank
  line_good _ _ h := h.toGood
  line_set _ _ _ h hv := ⟨⟨⟨h.key_ne, h.key, h.space⟩, hv.1⟩, h.blank, h.space_eq⟩
  put_of_split as s bs tail e _ := put_of_split as s bs tail e
  put_of_absent := put_of_absent

/-! ### Whole documents -/

/-- A head in a closed text is the head of a pair. -/
theorem Closed.exists_spans (h : Closed t) {i : Pair} (hi : i.Keyed) (e : t = x ++ i.head ++ y) :
    ∃ u b, t = x ++ u ++ b ∧ ∀ a, pair.Spans a u b := by
  obtain ⟨v, c, rfl, -⟩ := h (x ++ keyStart ++ i.key ++ keyEnd ++ i.space) y (by
    rw [e, Pair.head]
    simp)
  refine ⟨(⟨i.key, i.space, v⟩ : Pair).text, c, ?_, fun a => Pair.spans_pair.mpr ⟨_, ?_, rfl⟩⟩
  · rw [e]
    simp [Pair.text, Pair.head]
  · exact ⟨hi.key_ne, hi.key, hi.space⟩

theorem exists_slots {ms : List Match} (h : pair.Finds a t ms) (ht : Closed t) :
    ∃ ss tail, t = form.slotsText ss ++ tail ∧ form.Fair ss ∧ Quiet tail := by
  refine form.exists_slots (fun _ t _ => Closed t) ?_ ?_ h ht
  · intro a t ht hnone
    refine ⟨ht, fun x i y hi e => ?_⟩
    obtain ⟨u, b, e', hu⟩ := ht.exists_spans hi e
    exact hnone x u b e' (hu _)
  · intro a v u b gs ms ht hbest hleast _
    obtain ⟨i, hi, rfl⟩ := Pair.spans_pair.mp (Pattern.spans_of_best hbest)
    -- The pair ends where its string is closed.
    obtain ⟨w, c, hw, hclosed⟩ := ht (v ++ keyStart ++ i.key ++ keyEnd ++ i.space)
      (i.value ++ stringEnd ++ b) (by simp [Pair.text, Pair.head])
    have hgood : (⟨i.key, i.space, w⟩ : Pair).Good := ⟨⟨hi.key_ne, hi.key, hi.space⟩, hclosed⟩
    have htext : i.text ++ b = (⟨i.key, i.space, w⟩ : Pair).text ++ c := by
      have e := congrArg (i.head ++ ·) hw
      simpa [Pair.text, Pair.head] using e
    have hitem : i.text = (⟨i.key, i.space, w⟩ : Pair).text := by
      have hbest' := Pair.best_text hgood (a ++ v) c
      rw [← htext] at hbest'
      have e := (Pattern.Spot.mk.inj (Option.some.inj (hbest.symm.trans hbest'))).1
      exact List.append_cancel_left (List.reverse_inj.mp e)
    refine ⟨⟨?_, fun x j y hj e => ?_⟩, ⟨_, hgood, hitem⟩, ht.right⟩
    · obtain ⟨r, hr⟩ : ∃ r, i.text ++ b = '<' :: 'k' :: r := ⟨_, Pair.text_append i b⟩
      rw [List.append_assoc, hr] at ht
      exact Closed.left (w := []) ht rfl fun hpre =>
        absurd (List.cons_prefix_cons.mp hpre).1 (by decide)
    · have e' : v ++ i.text ++ b = x ++ j.head ++ (y ++ i.text ++ b) := by rw [e]; simp
      obtain ⟨u', b', hsplit, hu'⟩ := ht.exists_spans hj e'
      have hlen := hleast x u' b' hsplit (hu' _)
      have hkey : 0 < keyStart.length := by decide
      rw [e] at hlen
      simp only [Pair.head, List.length_append] at hlen
      omega

theorem stop_le_of_start_lt {ss : List (Slot Pair)} {tail : Text} {pos : Nat} (hss : form.Fair ss)
    (hpos : Text.findLast? closingTag (form.slotsText ss ++ tail) = some pos)
    (hlast : ∀ m ∈ form.foundAll [] ss, m.start < pos) : ∀ m ∈ form.foundAll [] ss, m.stop ≤ pos := by
  intro m hm
  have hstart := hlast m hm
  obtain ⟨a, i, b, hi, e, rfl⟩ := Form.mem_foundAll (a := []) (b := tail) hss rfl hm
  obtain ⟨x, y, hat, rfl⟩ := Text.exists_lastAt_of_findLast? (by decide) hpos
  simp only [Form.found, Match.ofSpot, List.length_reverse] at hstart ⊢
  have e' : a ++ form.text i ++ b = x ++ closingTag ++ y := e.symm.trans hat.split
  rw [List.append_assoc, List.append_assoc] at e'
  rcases List.append_eq_append_iff.mp e' with ⟨z, rfl, hz⟩ | ⟨z, rfl, -⟩
  · have hz0 : z ≠ [] := by
      rintro rfl
      simp at hstart
    have hno {w : Text} (h : ¬w <+: closingTag ∧ ¬closingTag <+: w) : ¬w <+: closingTag ++ y :=
      fun hw => (List.prefix_or_prefix_of_prefix hw (List.prefix_append _ y)).elim h.1 h.2
    rcases Pair.cases_of_text hi hz hz0 with h | h | h | ⟨z', rfl⟩
    · exact absurd h (hno (by decide))
    · exact absurd h (hno (by decide))
    · exact absurd h (hno (by decide))
    · simp [form]
  · rw [List.length_append] at hstart
    omega

/-- Writing entries into a property list does to the pairs that are found in it what `upsert` does to
a list of entries. -/
theorem putAll_upserts_pairs {es : List ResourceEntry} (hdict : closingTag.occursIn t)
    (hclosed : Closed t)
    (hlast : ∀ m ∈ pair.findAll t, ∀ pos ∈ Text.findLast? closingTag t, m.start < pos)
    (hes : ∀ e ∈ es, Named e) :
    ∃ t', putAll? t es = some t' ∧ entriesOf t' = upsertAll es (entriesOf t) ∧
      writer.Rewrites es t t' ∧ putAll? t' es = some t' := by
  obtain ⟨ss, tail, rfl, hss, htail⟩ :=
    exists_slots ((Pattern.findAll_eq_iff flat_pair taking_pair).mp rfl) hclosed
  have hfind : pair.findAll (form.slotsText ss ++ tail) = form.foundAll [] ss :=
    Form.findAll_text hss htail
  have htag : closingTag <:+: tail := by
    cases hpos : Text.findLast? closingTag (form.slotsText ss ++ tail) with
    | none => exact absurd (Text.occursIn_iff.mp hdict) (Text.findLast?_eq_none_iff.mp hpos)
    | some pos =>
        rw [hfind] at hlast
        exact Form.tag_infix_of_stop_le hpos (by decide)
          (stop_le_of_start_lt hss hpos fun m hm => hlast m hm pos hpos)
  obtain ⟨ss', tail', hss', htail', hput, hentries, htag', hrewrites, hagain⟩ :=
    writer.foldl_put hss htail htag hes
  have hdict' : closingTag.occursIn (form.slotsText ss' ++ tail') :=
    Text.occursIn_iff.mpr (htag'.trans (List.suffix_append _ _).isInfix)
  refine ⟨form.slotsText ss' ++ tail', ?_, ?_, hrewrites, ?_⟩
  · rw [putAll?, if_pos hdict]
    exact congrArg some hput
  · rw [entriesOf_text hss htail, entriesOf_text hss' htail']
    exact hentries
  · rw [putAll?, if_pos hdict']
    exact congrArg some hagain

/-- A property list with one pair. -/
def sampleList : Text := "<dict><key>a</key><string>b</string></dict>".toList

/-- An entry whose key is there and a new one. -/
def sampleEntries : List ResourceEntry := [⟨['a'], ['<'], true⟩, ⟨['n'], ['2'], true⟩]

theorem putAll_upserts_pairs_sample :
    closingTag.occursIn sampleList ∧ Closed sampleList ∧
      (∀ m ∈ pair.findAll sampleList, ∀ pos ∈ Text.findLast? closingTag sampleList, m.start < pos) ∧
      (∀ e ∈ sampleEntries, Named e) ∧
      ∃ t', putAll? sampleList sampleEntries = some t' ∧
        entriesOf t' = upsertAll sampleEntries (entriesOf sampleList) ∧
        writer.Rewrites sampleEntries sampleList t' ∧ putAll? t' sampleEntries = some t' := by
  have hdict : closingTag.occursIn sampleList := by decide
  have hclosed : Closed sampleList := by decide
  have hfind : pair.findAll sampleList = [⟨6, 36, [(2, 26, 27), (1, 11, 12)]⟩] := by decide
  have hpos : Text.findLast? closingTag sampleList = some 36 := by decide
  have hlast : ∀ m ∈ pair.findAll sampleList, ∀ pos ∈ Text.findLast? closingTag sampleList,
      m.start < pos := by
    rw [hfind, hpos]
    decide
  have hes : ∀ e ∈ sampleEntries, Named e := by decide
  exact ⟨hdict, hclosed, hlast, hes, putAll_upserts_pairs hdict hclosed hlast hes⟩

end Graft.PropertyList
