import Graft.Proofs.Pattern.Prefer
import Graft.Proofs.Resource.Draft
import Graft.Resource.StringTable

/-! # Writing entries into string tables

A string table in which every start of a string element is that of an element which is found is laid
out as its elements.  Writing entries into it does to the elements what `upsert` does to a list of
entries (`putAll_upserts_elements`). -/

namespace Graft.StringTable

open Markup (Tagless Ending Form Slot Writer)
open Markup.Draft (entries upsertAll)

/-! ### Elements -/

def opening : Text := ['<', 's', 't', 'r', 'i', 'n', 'g']

def nameStart : Text := ['n', 'a', 'm', 'e', '=', '"']

def closing : Text := ['<', '/', 's', 't', 'r', 'i', 'n', 'g', '>']

theorem toList_opening : "<string".toList = opening := rfl

theorem toList_nameStart : "name=\"".toList = nameStart := rfl

theorem toList_quote : "\"".toList = ['"'] := rfl

theorem toList_selfClosing : "/>".toList = ['/', '>'] := rfl

theorem toList_close : ">".toList = ['>'] := rfl

theorem toList_closing : "</string>".toList = closing := rfl

/-- A string element; one that closes itself has no content. -/
structure Element where
  space : Text
  name : Text
  attributes : Text
  content : Option Text

variable {a b g t u v w x y : Text} {c : Char}

namespace Element

variable {i : Element}

/-- What comes after the attributes. -/
def finish : Option Text → Text
  | none => ['/', '>']
  | some content => '>' :: content ++ closing

def start (i : Element) : Text := opening ++ i.space ++ nameStart

def text (i : Element) : Text := i.start ++ i.name ++ '"' :: i.attributes ++ finish i.content

/-- The pattern can take the element. -/
structure Shaped (i : Element) : Prop where
  space_ne : i.space ≠ []
  space : i.space.isBlank
  name_ne : i.name ≠ []
  name : '"' ∉ i.name
  attributes : '>' ∉ i.attributes

/-- The pattern takes the element as it was written. -/
structure Exact (i : Element) : Prop extends Shaped i where
  /-- An open element does not look like one that closes itself. -/
  open_end : i.content.isSome → i.attributes.getLast? ≠ some '/'
  first_closing : ∀ content, i.content = some content → ∀ x y,
    content ++ closing = x ++ closing ++ y → y = []

/-- The element is found as it was written, also when it gets a content. -/
structure Good (i : Element) : Prop extends Exact i where
  trimmed : i.content = none → i.attributes.trimEnd.getLast? ≠ some '/'

theorem text_append (i : Element) (b : Text) : i.text ++ b = opening ++ (i.space ++ (nameStart ++
    (i.name ++ (['"'] ++ (i.attributes ++ (finish i.content ++ b)))))) := by
  simp only [text, start, List.append_assoc, List.cons_append, List.nil_append]

section

open Pattern

theorem spans_element : element.Spans a u b ↔ ∃ i : Element, i.Shaped ∧ u = i.text := by
  unfold element
  simp only [spans_seq, spans_alt, spans_lit, spans_blanks1, spans_group, spans_star, spans_plus,
    all_noneOf, toList_opening, toList_nameStart, toList_quote, toList_selfClosing, toList_close,
    toList_closing]
  constructor
  · rintro ⟨-, -, rfl, ⟨-, attributes, rfl, ⟨-, -, rfl, ⟨-, name, rfl, ⟨-, -, rfl,
      ⟨-, space, rfl, rfl, hspace, hblank⟩, rfl⟩, hne, hname⟩, rfl⟩, hattributes⟩,
      rfl | ⟨-, -, rfl, ⟨-, content, rfl, rfl, -⟩, rfl⟩⟩
    · exact ⟨⟨space, name, attributes, none⟩, ⟨hspace, hblank, hne, hname, hattributes⟩,
        by simp [text, start, finish]⟩
    · exact ⟨⟨space, name, attributes, some content⟩, ⟨hspace, hblank, hne, hname, hattributes⟩,
        by simp [text, start, finish]⟩
  · rintro ⟨i, hi, rfl⟩
    refine ⟨i.start ++ i.name ++ ['"'] ++ i.attributes, finish i.content, by simp [text], ⟨_, _, rfl,
      ⟨_, _, rfl, ⟨_, _, rfl, ⟨_, _, rfl, ⟨_, _, rfl, rfl, hi.space_ne, hi.space⟩, rfl⟩, hi.name_ne,
        hi.name⟩, rfl⟩, hi.attributes⟩, ?_⟩
    cases i.content with
    | none => exact .inl rfl
    | some content => exact .inr ⟨['>'] ++ content, _, rfl, ⟨_, _, rfl, rfl, all_all⟩, rfl⟩

/-- What the groups record of the element behind a text. -/
def groups (a : Text) (i : Element) : List (Nat × Text × Text) :=
  let before := a ++ i.start ++ i.name ++ ['"']
  let common := [(2, before.reverse, (before ++ i.attributes).reverse),
    (1, (a ++ i.start).reverse, (a ++ i.start ++ i.name).reverse)]
  match i.content with
  | none => common
  | some content =>
    (3, (before ++ i.attributes ++ ['>']).reverse,
      (before ++ i.attributes ++ ['>'] ++ content).reverse) :: common

/-- The end of an element is not found inside its attributes. -/
theorem not_finish_prefix (hi : i.Exact) (e : i.attributes = v ++ c :: w) :
    ¬['/', '>'] <+: c :: w ++ (finish i.content ++ b) ∧
      ¬['>'] <+: c :: w ++ (finish i.content ++ b) := by
  have hmem : '>' ∉ v ++ c :: w := e ▸ hi.attributes
  constructor
  · intro h
    obtain ⟨rfl, hrest⟩ := List.cons_prefix_cons.mp h
    cases w with
    | nil =>
        cases hcontent : i.content with
        | none =>
            rw [hcontent] at hrest
            exact absurd (List.cons_prefix_cons.mp hrest).1 (by decide)
        | some content =>
            refine hi.open_end (by rw [hcontent]; rfl) ?_
            rw [e, List.getLast?_append]
            rfl
    | cons d w =>
        obtain ⟨rfl, -⟩ := List.cons_prefix_cons.mp hrest
        simp at hmem
  · intro h
    obtain ⟨rfl, -⟩ := List.cons_prefix_cons.mp h
    simp at hmem

/-- The end of an element is not found inside its content. -/
theorem not_closing_prefix {content : Text}
    (hfirst : ∀ x y, content ++ closing = x ++ closing ++ y → y = []) (e : content = v ++ c :: w)
    (b : Text) : ¬closing <+: c :: w ++ (closing ++ b) := by
  intro h
  rw [← List.append_assoc] at h
  have hlen : closing.length ≤ (c :: w ++ closing).length := by
    rw [List.length_append]
    exact Nat.le_add_left ..
  obtain ⟨y, hy⟩ := List.prefix_of_prefix_length_le h (List.prefix_append (c :: w ++ closing) b) hlen
  have hnil := hfirst v y (by rw [e, List.append_assoc v, List.append_assoc v, hy])
  rw [hnil, List.append_nil] at hy
  have hself := congrArg List.length hy
  rw [List.length_append, List.length_cons] at hself
  omega

theorem best_text (hi : i.Exact) (a b : Text) :
    (element.ways ⟨a.reverse, i.text ++ b, []⟩).head? =
      some ⟨(a ++ i.text).reverse, b, i.groups a⟩ := by
  rw [head?_ways, text_append]
  unfold element
  iterate 6 rw [prefer_seq]
  rw [prefer_lit toList_opening]
  refine prefer_plus_greedy hi.space_ne ?_ ?_ ?_
  · rw [all_space]
    exact hi.space
  · rintro c ⟨⟩
    rfl
  rw [prefer_lit toList_nameStart, prefer_group]
  refine prefer_plus_greedy hi.name_ne (all_noneOf.mpr hi.name) ?_ ?_
  · rintro c ⟨⟩
    rfl
  rw [Spot.close, prefer_lit toList_quote, prefer_group]
  refine prefer_star_lazy (all_noneOf.mpr hi.attributes) ?_ ?_
  · intro v c w e
    obtain ⟨h1, h2⟩ := not_finish_prefix (b := b) hi e
    rw [Spot.close, prefer_alt, prefer_lit_eq_none (toList_selfClosing ▸ h1), prefer_seq, prefer_seq,
      prefer_lit_eq_none (toList_close ▸ h2)]
    rfl
  rw [Spot.close, prefer_alt]
  cases hcontent : i.content with
  | none =>
      have hfinish : finish none ++ b = ['/', '>'] ++ b := rfl
      rw [hfinish, prefer_lit toList_selfClosing, Option.some_or]
      simp [text, start, groups, hcontent, finish]
  | some content =>
      have hfinish : finish (some content) ++ b = ['>'] ++ (content ++ (closing ++ b)) := by
        simp [finish]
      have hno : ¬"/>".toList <+: ['>'] ++ (content ++ (closing ++ b)) := by
        rw [toList_selfClosing]
        exact fun h => absurd (List.cons_prefix_cons.mp h).1 (by decide)
      rw [hfinish, prefer_lit_eq_none hno, Option.none_or, prefer_seq, prefer_seq,
        prefer_lit toList_close, prefer_group]
      refine prefer_star_lazy all_all ?_ ?_
      · intro v c w e
        have hno := not_closing_prefix (hi.first_closing content hcontent) e b
        exact prefer_lit_eq_none (toList_closing ▸ hno)
      · rw [Spot.close, prefer_lit toList_closing]
        simp [text, start, groups, hcontent, finish]

end

end Element

/-! ### The form -/

/-- No element starts in the text. -/
def Quiet (g : Text) : Prop :=
  ∀ x (i : Element) y, i.space ≠ [] → i.space.isBlank → g ≠ x ++ i.start ++ y

theorem quiet_nil : Quiet [] := by
  intro x i y _ _ e
  simp [Element.start, opening] at e

theorem Quiet.right (h : Quiet (u ++ v)) : Quiet v := by
  rintro x i y hne hblank rfl
  exact h (u ++ x) i y hne hblank (by simp)

theorem Quiet.left (h : Quiet (u ++ v)) : Quiet u := by
  rintro x i y hne hblank rfl
  exact h x i (y ++ v) hne hblank (by simp)

theorem Quiet.newline (h : Quiet t) : Quiet ('\n' :: t) := by
  rintro (_ | ⟨c, x⟩) i y hne hblank e
  · exact absurd (List.cons.inj e).1 (by decide)
  · exact h x i y hne hblank (List.cons.inj e).2

theorem Quiet.append_blank (h : Quiet x) (hw : w.isBlank) : Quiet (x ++ w) := by
  intro a i b hne hblank e
  have hstart : i.start = (opening ++ i.space ++ ['n', 'a', 'm', 'e', '=']) ++ ['"'] := by
    simp [Element.start, nameStart]
  rw [hstart] at e
  obtain ⟨z, hz⟩ := Text.prefix_of_blank e (by decide) hw
  rw [← hstart] at hz
  exact h a i z hne hblank hz.symm

/-- An element that begins behind the start of another one begins behind all of it. -/
theorem Element.start_prefix {i : Element} (hblank : i.space.isBlank)
    (e : i.start ++ u = x ++ '<' :: y) (hx : x ≠ []) : i.start <+: x := by
  have hrest : '<' ∉ ['s', 't', 'r', 'i', 'n', 'g'] ++ i.space ++ nameStart := by
    simp only [List.mem_append, not_or]
    refine ⟨⟨by decide, fun hmem => ?_⟩, by decide⟩
    exact absurd (List.all_eq_true.mp hblank '<' hmem) (by decide)
  have e' : [] ++ '<' :: (['s', 't', 'r', 'i', 'n', 'g'] ++ i.space ++ nameStart) ++ u =
      x ++ '<' :: y := e
  rcases Text.cases_of_word e' List.not_mem_nil hrest with ⟨h, -⟩ | ⟨z, rfl, -⟩
  · exact absurd h hx
  · exact ⟨z, rfl⟩

theorem Quiet.length_le (hg : Quiet g) {i : Element} {b' : Text}
    (e : g ++ i.text ++ b = v ++ u ++ b') (hu : element.Spans a u b') : g.length ≤ v.length := by
  obtain ⟨j, hj, rfl⟩ := Element.spans_element.mp hu
  rw [List.append_assoc, List.append_assoc] at e
  rcases List.append_eq_append_iff.mp e with ⟨z, rfl, -⟩ | ⟨z, rfl, hz⟩
  · simp
  · by_cases hz0 : z = []
    · simp [hz0]
    · exfalso
      obtain ⟨r, hr⟩ : ∃ r, i.text ++ b = '<' :: r := ⟨_, Element.text_append i b⟩
      rw [hr, Element.text, List.append_assoc, List.append_assoc, List.append_assoc] at hz
      obtain ⟨q, rfl⟩ := Element.start_prefix hj.space hz hz0
      exact hg v j q hj.space_ne hj.space (by simp)

theorem not_spans_of_quiet (hg : Quiet g) (e : g = v ++ u ++ b) : ¬element.Spans a u b := by
  intro hu
  obtain ⟨j, hj, rfl⟩ := Element.spans_element.mp hu
  exact hg v j (j.name ++ '"' :: j.attributes ++ Element.finish j.content ++ b) hj.space_ne hj.space
    (by rw [e, Element.text]; simp)

theorem getLast?_text (i : Element) : i.text.getLast? = some '>' := by
  rw [Element.text, List.getLast?_append]
  cases i.content with
  | none => rfl
  | some content =>
      rw [Element.finish, List.getLast?_append]
      rfl

theorem flat_element : element.Flat :=
  ⟨⟨⟨⟨⟨⟨Pattern.flat_ofText _, trivial⟩, Pattern.flat_ofText _⟩, trivial⟩, Pattern.flat_ofText _⟩,
    trivial⟩, Pattern.flat_ofText _, ⟨Pattern.flat_ofText _, trivial⟩, Pattern.flat_ofText _⟩

theorem taking_element : element.Taking := by
  intro a b h
  obtain ⟨i, -, hi⟩ := Element.spans_element.mp h
  have := congrArg List.getLast? hi
  rw [getLast?_text] at this
  exact nomatch this

namespace Element

variable {i : Element}

/-- The element with a content; one that closed itself is opened. -/
def set (i : Element) (value : Text) : Element :=
  match i.content with
  | some _ => { i with content := some value }
  | none => ⟨[' '], i.name, i.attributes.trimEnd, some value⟩

theorem name_set (i : Element) (value : Text) : (i.set value).name = i.name := by
  rw [set]
  split <;> rfl

theorem content_set (i : Element) (value : Text) : (i.set value).content = some value := by
  rw [set]
  split <;> rfl

theorem set_set (i : Element) (value value' : Text) :
    (i.set value).set value' = i.set value' := by
  obtain ⟨space, name, attributes, content⟩ := i
  cases content <;> rfl

/-- A content without tags ends where the element is closed. -/
theorem first_closing_of_tagless {value : Text} (hv : Tagless value)
    (e : value ++ closing = x ++ closing ++ y) : y = [] := by
  have e' : value ++ '<' :: ['/', 's', 't', 'r', 'i', 'n', 'g', '>'] ++ [] =
      x ++ '<' :: (['/', 's', 't', 'r', 'i', 'n', 'g', '>'] ++ y) := by
    rw [List.append_nil]
    exact e.trans (by simp [closing])
  rcases Text.cases_of_word e' hv.1 (by decide) with ⟨-, h⟩ | ⟨z, -, h⟩
  · simpa using h
  · simp at h

theorem Good.set (hi : i.Good) {value : Text} (hv : Tagless value) : (i.set value).Good := by
  have hfirst : ∀ content, some value = some content → ∀ x y,
      content ++ closing = x ++ closing ++ y → y = [] := by
    rintro content ⟨⟩ x y e
    exact first_closing_of_tagless hv e
  cases hcontent : i.content with
  | some content =>
      have e : i.set value = { i with content := some value } := by rw [Element.set, hcontent]
      rw [e]
      refine ⟨⟨⟨hi.space_ne, hi.space, hi.name_ne, hi.name, hi.attributes⟩, fun _ => ?_, hfirst⟩,
        fun h => nomatch h⟩
      exact hi.open_end (by rw [hcontent]; rfl)
  | none =>
      have e : i.set value = ⟨[' '], i.name, i.attributes.trimEnd, some value⟩ := by
        rw [Element.set, hcontent]
      have hattributes : '>' ∉ i.attributes.trimEnd := by
        obtain ⟨v, hv, -⟩ := Text.exists_trimEnd i.attributes
        intro hmem
        refine hi.attributes ?_
        rw [hv]
        exact List.mem_append_left _ hmem
      rw [e]
      exact ⟨⟨⟨List.cons_ne_nil _ _, rfl, hi.name_ne, hi.name, hattributes⟩,
        fun _ => hi.trimmed hcontent, hfirst⟩, fun h => nomatch h⟩

end Element

/-- How string tables write their elements. -/
def form : Form Element where
  name := Element.name
  set := Element.set
  name_set := Element.name_set
  set_set := Element.set_set
  value i := i.content.getD []
  text := Element.text
  pattern := element
  groups := Element.groups
  tag := closingTag
  Good := Element.Good
  Quiet := Quiet
  value_set i v := by rw [Element.content_set, Option.getD_some]
  good_set i v hi hv := hi.set hv
  flat := flat_element
  taking := taking_element
  tag_ne := by decide
  last i _ := getLast?_text i
  best i a b hi := Element.best_text hi.toExact a b
  quiet_item g i hg _ a v b u b' e hu := hg.length_le e hu
  quiet_tail g hg a v u b e := not_spans_of_quiet hg e
  quiet_front front back s h _ hs := h.left.append_blank hs
  quiet_back front back h := h.right.newline
  quiet_blank s hs := quiet_nil.append_blank hs

/-! ### What the groups hold -/

variable {i : Element} {n : Text}

theorem group?_name (a : Text) (i : Element) : (form.found a i).group? 1 =
    some ((a ++ i.start).length, (a ++ i.start).length + i.name.length) := by
  have h : (form.found a i).group? 1 =
      some ((a ++ i.start).reverse.length, (a ++ i.start ++ i.name).reverse.length) := by
    obtain ⟨space, name, attributes, content⟩ := i
    cases content <;> rfl
  rw [h, Form.span_append]

/-- What comes before the attributes. -/
def Element.front (i : Element) : Text := i.start ++ i.name ++ ['"']

theorem group?_attributes (a : Text) (i : Element) : (form.found a i).group? 2 =
    some ((a ++ i.front).length, (a ++ i.front).length + i.attributes.length) := by
  have h : (form.found a i).group? 2 = some ((a ++ i.start ++ i.name ++ ['"']).reverse.length,
      (a ++ i.start ++ i.name ++ ['"'] ++ i.attributes).reverse.length) := by
    obtain ⟨space, name, attributes, content⟩ := i
    cases content <;> rfl
  have hfront : a ++ i.start ++ i.name ++ ['"'] = a ++ i.front := by simp [Element.front]
  rw [h, hfront, Form.span_append]

theorem group?_content (a : Text) (i : Element) : (form.found a i).group? 3 =
    i.content.map fun content => ((a ++ (i.front ++ i.attributes ++ ['>'])).length,
      (a ++ (i.front ++ i.attributes ++ ['>'])).length + content.length) := by
  obtain ⟨space, name, attributes, _ | content⟩ := i
  · rfl
  · have h : (form.found a ⟨space, name, attributes, some content⟩).group? 3 =
        some ((a ++ (opening ++ space ++ nameStart) ++ name ++ ['"'] ++ attributes ++ ['>']).reverse.length,
          (a ++ (opening ++ space ++ nameStart) ++ name ++ ['"'] ++ attributes ++ ['>'] ++
            content).reverse.length) := rfl
    rw [h, Form.span_append]
    simp [Element.front, Element.start]

theorem slice_name (a : Text) (i : Element) (b : Text) : Text.slice (a ++ i.text ++ b)
    (a ++ i.start).length ((a ++ i.start).length + i.name.length) = i.name := by
  have e : a ++ i.text ++ b = a ++ i.start ++ i.name ++
      ('"' :: i.attributes ++ Element.finish i.content ++ b) := by
    simp [Element.text]
  rw [e, Text.slice_append]

theorem slice_attributes (a : Text) (i : Element) (b : Text) : Text.slice (a ++ i.text ++ b)
    (a ++ i.front).length ((a ++ i.front).length + i.attributes.length) = i.attributes := by
  have e : a ++ i.text ++ b = a ++ i.front ++ i.attributes ++ (Element.finish i.content ++ b) := by
    simp [Element.text, Element.front]
  rw [e, Text.slice_append]

theorem text_eq_of_content {content : Text} (h : i.content = some content) (a b : Text) :
    a ++ i.text ++ b = a ++ (i.front ++ i.attributes ++ ['>']) ++ content ++ (closing ++ b) := by
  simp [Element.text, Element.front, h, Element.finish]

theorem groupText_name (a : Text) (i : Element) (b : Text) :
    groupText (form.found a i) 1 (a ++ i.text ++ b) = i.name := by
  rw [groupText, group?_name]
  exact slice_name a i b

theorem groupText_attributes (a : Text) (i : Element) (b : Text) :
    groupText (form.found a i) 2 (a ++ i.text ++ b) = i.attributes := by
  rw [groupText, group?_attributes]
  exact slice_attributes a i b

theorem groupText_content (a : Text) (i : Element) (b : Text) :
    groupText (form.found a i) 3 (a ++ i.text ++ b) = i.content.getD [] := by
  rw [groupText, group?_content]
  cases hcontent : i.content with
  | none => rfl
  | some content =>
      rw [text_eq_of_content hcontent]
      exact Text.slice_append ..

/-- The entries that are found in a string table. -/
def entriesOf (t : Text) : List ResourceEntry :=
  (element.findAll t).map fun m => .ofTexts (groupText m 1 t) (groupText m 3 t)

theorem entriesOf_text {ss : List (Slot Element)} {tail : Text} (hss : form.Fair ss)
    (htail : Quiet tail) : entriesOf (form.slotsText ss ++ tail) = entries form ss := by
  have hreads : form.Reads (fun m => ResourceEntry.ofTexts
      (groupText m 1 (form.slotsText ss ++ tail)) (groupText m 3 (form.slotsText ss ++ tail)))
      (fun i => .ofTexts (form.name i) (form.value i)) (form.slotsText ss ++ tail) := by
    intro a i b _ e
    have h1 := groupText_name a i b
    have h3 := groupText_content a i b
    simp only [e]
    rw [show form.text i = i.text from rfl, h1, h3]
    rfl
  have hfind : element.findAll (form.slotsText ss ++ tail) = form.foundAll [] ss :=
    Form.findAll_text hss htail
  rw [entriesOf, hfind, Form.map_foundAll hreads hss rfl]
  rfl

/-! ### Writing -/

/-- The entry has a name that an element can have. -/
def Named (e : ResourceEntry) : Prop := e.name ≠ [] ∧ '"' ∉ e.name ∧ '<' ∉ e.name ∧ '>' ∉ e.name

instance (e : ResourceEntry) : Decidable (Named e) := inferInstanceAs (Decidable (_ ∧ _ ∧ _ ∧ _))

/-- What keeps an element from being translated. -/
def untranslated : Text := " translatable=\"false\"".toList

/-- An element on a line of its own. -/
structure Line (indent : Text) (i : Element) : Prop extends Element.Good i where
  indent_eq : indent = [' ', ' ']
  space_eq : i.space = [' ']
  attributes_eq : i.attributes = [] ∨ i.attributes = untranslated
  isOpen : i.content.isSome

theorem reads_name (t n : Text) : form.Reads (fun m => decide (groupText m 1 t = n))
    (fun i => decide (form.name i = n)) t := by
  rintro a i b _ rfl
  have h := groupText_name a i b
  simp only
  rw [show form.text i = i.text from rfl, h]
  rfl

theorem findElement?_of_split {as bs : List (Slot Element)} {s : Slot Element} {tail n : Text}
    (hss : form.Fair (as ++ s :: bs)) (htail : Quiet tail)
    (has : ∀ s' ∈ as, form.slots.name s' ≠ n) (hs : form.slots.name s = n) :
    findElement? n (form.slotsText (as ++ s :: bs) ++ tail) =
      some (form.found (form.slotsText as ++ s.gap) s.item) := by
  have hfind : element.findAll (form.slotsText (as ++ s :: bs) ++ tail) =
      form.foundAll [] (as ++ s :: bs) := Form.findAll_text hss htail
  rw [findElement?, hfind, Form.find?_foundAll_of_split (reads_name _ n) hss rfl has hs]

theorem findElement?_of_absent {ss : List (Slot Element)} {tail n : Text}
    (hss : form.Fair ss) (htail : Quiet tail) (habsent : ∀ s ∈ ss, form.slots.name s ≠ n) :
    findElement? n (form.slotsText ss ++ tail) = none := by
  have hfind : element.findAll (form.slotsText ss ++ tail) = form.foundAll [] ss :=
    Form.findAll_text hss htail
  rw [findElement?, hfind]
  exact Form.find?_foundAll_of_absent (a := []) (b := tail)
    (reads_name (form.slotsText ss ++ tail) n) hss rfl habsent

theorem render_eq (name attributes content : Text) :
    render name attributes content = (⟨[' '], name, attributes, some content⟩ : Element).text := by
  have hstart : "<string name=\"".toList = opening ++ [' '] ++ nameStart := by decide
  have htext : (⟨[' '], name, attributes, some content⟩ : Element).text =
      opening ++ [' '] ++ nameStart ++ name ++ '"' :: attributes ++ '>' :: content ++ closing := by
    simp [Element.text, Element.start, Element.finish]
  rw [htext, ← hstart]
  rfl

/-- Writing to an element that is there gives it the content. -/
theorem put_found (a b : Text) (i : Element) (e : ResourceEntry)
    (hfind : findElement? e.name (a ++ i.text ++ b) = some (form.found a i)) (hname : i.name = e.name) :
    put (a ++ i.text ++ b) e = a ++ (i.set (Markup.escape e.value)).text ++ b := by
  rw [put, hfind]
  simp only
  rw [group?_content, Element.set]
  cases hcontent : i.content with
  | none =>
      have hstart : (form.found a i).start = a.length := List.length_reverse
      have hstop : (form.found a i).stop = a.length + i.text.length := by
        rw [← List.length_append]
        exact List.length_reverse
      simp only [Option.map_none]
      rw [groupText_attributes, render_eq, ← hname, hstart, hstop, Text.replaceRange_append]
  | some content =>
      simp only [Option.map_some]
      rw [text_eq_of_content hcontent, Text.replaceRange_append]
      simp [Element.text, Element.front, Element.start, Element.finish]

theorem put_of_split (as : List (Slot Element)) (s : Slot Element) (bs : List (Slot Element))
    (tail : Text) (e : ResourceEntry) (hss : form.Fair (as ++ s :: bs)) (htail : Quiet tail)
    (has : ∀ s' ∈ as, form.slots.name s' ≠ e.name) (hs : form.slots.name s = e.name) :
    put (form.slotsText (as ++ s :: bs) ++ tail) e =
      form.slotsText (as ++ form.slots.set s (Markup.escape e.value) :: bs) ++ tail := by
  have etext (s : Slot Element) : form.slotsText (as ++ s :: bs) ++ tail =
      form.slotsText as ++ s.gap ++ s.item.text ++ (form.slotsText bs ++ tail) := by
    rw [Form.slotsText_append, Form.slotsText_cons]
    simp [form]
  have hfind := findElement?_of_split hss htail has hs
  rw [etext] at hfind
  rw [etext, put_found _ _ _ _ hfind hs, etext]
  rfl

theorem put_of_absent (ss : List (Slot Element)) (tail : Text) (e : ResourceEntry) (he : Named e)
    (hss : form.Fair ss) (htail : Quiet tail) (habsent : ∀ s ∈ ss, form.slots.name s ≠ e.name) :
    ∃ l i, Line l i ∧ form.name i = e.name ∧ form.value i = Markup.escape e.value ∧
      form.set i (Markup.escape e.value) = i ∧
      put (form.slotsText ss ++ tail) e = Markup.insertLines (form.slotsText ss ++ tail)
        (Markup.closingTagPos form.tag (form.slotsText ss ++ tail)) (l ++ form.text i ++ ['\n']) := by
  obtain ⟨hne, hname, -⟩ := he
  obtain ⟨attributes, hattributes, hput⟩ : ∃ attributes,
      (attributes = [] ∨ attributes = untranslated) ∧
        attributes = if e.translatable then [] else untranslated := by
    refine ⟨_, ?_, rfl⟩
    split
    · exact .inl rfl
    · exact .inr rfl
  have hends : '>' ∉ attributes ∧ attributes.getLast? ≠ some '/' := by
    rcases hattributes with rfl | rfl
    · decide
    · decide
  have hgood : (⟨[' '], e.name, attributes, some (Markup.escape e.value)⟩ : Element).Good := by
    refine ⟨⟨⟨List.cons_ne_nil _ _, rfl, hne, hname, hends.1⟩, fun _ => hends.2, ?_⟩,
      fun h => nomatch h⟩
    rintro content ⟨⟩ x y h
    exact Element.first_closing_of_tagless (Markup.tagless_escape e.value) h
  refine ⟨_, _, ⟨hgood, rfl, rfl, hattributes, rfl⟩, rfl, rfl, rfl, ?_⟩
  rw [put, findElement?_of_absent hss htail habsent]
  simp only
  rw [render_eq, hput]
  rfl

/-- How entries are written into string tables. -/
def writer : Writer Element where
  toForm := form
  put := put
  Named := Named
  Line := Line
  line_blank _ _ h := by rw [h.indent_eq]; rfl
  line_good _ _ h := h.toGood
  line_set _ i v h hv := by
    obtain ⟨content, hcontent⟩ := Option.isSome_iff_exists.mp h.isOpen
    have e : i.set v = { i with content := some v } := by rw [Element.set, hcontent]
    have hgood := h.toGood.set hv
    rw [e] at hgood
    change Line _ (i.set v)
    rw [e]
    exact ⟨hgood, h.indent_eq, h.space_eq, h.attributes_eq, rfl⟩
  put_of_split as s bs tail e _ := put_of_split as s bs tail e
  put_of_absent := put_of_absent

/-! ### Whole documents -/

/-- A text in which a word occurs can be cut behind its first occurrence. -/
theorem exists_first_end (w content : Text) : ∃ content' z,
    content ++ w = content' ++ w ++ z ∧ ∀ x y, content' ++ w = x ++ w ++ y → y = [] := by
  by_cases h : ∃ x y, content ++ w = x ++ w ++ y ∧ y ≠ []
  · obtain ⟨x, y, e, hy⟩ := h
    have hlen : x.length < content.length := by
      have hpos := List.length_pos_iff.mpr hy
      have := congrArg List.length e
      simp only [List.length_append] at this
      omega
    obtain ⟨content', z, e', hfirst⟩ := exists_first_end w x
    exact ⟨content', z ++ y, by rw [e, e']; simp, hfirst⟩
  · refine ⟨content, [], (List.append_nil _).symm, fun x y e => ?_⟩
    exact Classical.byContradiction fun hy => h ⟨x, y, e, hy⟩
termination_by content.length

/-- Where the pattern can take an element, there is one that it takes as it was written. -/
theorem Element.Shaped.exists_exact (hi : i.Shaped) (b : Text) :
    ∃ j c, Element.Exact j ∧ i.text ++ b = j.text ++ c := by
  cases hcontent : i.content with
  | none =>
      refine ⟨i, b, ⟨hi, fun h => ?_, fun _ h => ?_⟩, rfl⟩
      · rw [hcontent] at h
        exact nomatch h
      · rw [hcontent] at h
        exact nomatch h
  | some content =>
      by_cases hslash : i.attributes.getLast? = some '/'
      · -- The end of the attributes and the bracket close the element.
        obtain ⟨p, hp⟩ := List.getLast?_eq_some_iff.mp hslash
        refine ⟨⟨i.space, i.name, p, none⟩, content ++ closing ++ b,
          ⟨⟨hi.space_ne, hi.space, hi.name_ne, hi.name, fun hmem => hi.attributes ?_⟩,
            (fun h => nomatch h), fun _ h => nomatch h⟩, ?_⟩
        · rw [hp]
          exact List.mem_append_left _ hmem
        · simp [Element.text, Element.start, Element.finish, hp, hcontent]
      · obtain ⟨content', z, e, hfirst⟩ := exists_first_end closing content
        refine ⟨⟨i.space, i.name, i.attributes, some content'⟩, z ++ b,
          ⟨⟨hi.space_ne, hi.space, hi.name_ne, hi.name, hi.attributes⟩, fun _ => hslash, ?_⟩, ?_⟩
        · rintro _ ⟨⟩
          exact hfirst
        · have e' : content ++ (closing ++ b) = content' ++ (closing ++ (z ++ b)) := by
            rw [← List.append_assoc, e]
            simp
          simp [Element.text, Element.start, Element.finish, hcontent, e']

/-- Whether the text begins with the start of a string element. -/
def opens (t : Text) : Bool := (Text.after? opening t).any fun r => r.head?.any Graft.isBlank

theorem opens_start (hne : i.space ≠ []) (hblank : i.space.isBlank) (y : Text) :
    opens (i.start ++ y) := by
  have hafter : Text.after? opening (i.start ++ y) = some (i.space ++ nameStart ++ y) :=
    Text.after?_eq_some_iff.mpr (by simp [Element.start])
  rw [opens, hafter, Option.any_some]
  cases hspace : i.space with
  | nil => exact absurd hspace hne
  | cons c s =>
      rw [hspace, Text.isBlank, List.all_cons, Bool.and_eq_true] at hblank
      exact hblank.1

/-- Behind `a`, every start of a string element is where a match begins, and no element that closes
itself has a slash before its end. -/
structure Told (a t : Text) (ms : List Match) : Prop where
  starts : ∀ x y, t = x ++ y → opens y → ∃ m ∈ ms, m.start = (a ++ x).length
  trimmed : ∀ m ∈ ms, m.group? 3 = none → (groupText m 2 (a ++ t)).trimEnd.getLast? ≠ some '/'

theorem exists_slots {ms : List Match} (h : element.Finds a t ms) (ht : Told a t ms) :
    ∃ ss tail, t = form.slotsText ss ++ tail ∧ form.Fair ss ∧ Quiet tail := by
  refine form.exists_slots Told ?_ ?_ h ht
  · rintro a t ht - x i y hne hblank e
    obtain ⟨m, hm, -⟩ := ht.starts x (i.start ++ y) (by rw [e]; simp) (opens_start hne hblank y)
    exact nomatch hm
  · intro a v u b gs ms ht hbest hleast hrest
    obtain ⟨i, hi, rfl⟩ := Element.spans_element.mp (Pattern.spans_of_best hbest)
    obtain ⟨j, c, hj, e⟩ := hi.exists_exact b
    have hbest' := Element.best_text hj (a ++ v) c
    rw [← e] at hbest'
    obtain ⟨hbefore, -, hgroups⟩ :=
      Pattern.Spot.mk.inj (Option.some.inj (hbest.symm.trans hbest'))
    have hitem : i.text = j.text := List.append_cancel_left (List.reverse_inj.mp hbefore)
    have htext : a ++ (v ++ i.text ++ b) = a ++ v ++ j.text ++ b := by rw [hitem]; simp
    have hne : 0 < i.text.length := by
      cases hi0 : i.text with
      | nil =>
          have := getLast?_text i
          rw [hi0] at this
          exact nomatch this
      | cons => exact Nat.succ_pos _
    have hfirst : ∀ x y, v ++ i.text ++ b = x ++ y → opens y → x.length ≠ v.length →
        ∃ m ∈ ms, m.start = (a ++ x).length := by
      intro x y e hy hx
      obtain ⟨m, hm, hstart⟩ := ht.starts x y e hy
      rcases List.mem_cons.mp hm with rfl | hm
      · simp only [Match.ofSpot, List.length_reverse, List.length_append] at hstart
        omega
      · exact ⟨m, hm, hstart⟩
    refine ⟨?_, ⟨j, ⟨hj, fun hnone => ?_⟩, hitem⟩, ⟨fun x y e hy => ?_, fun m hm => ?_⟩⟩
    · -- An element that starts in the gap would have to be found there.
      rintro x k y hspace hblank rfl
      obtain ⟨m, hm, hstart⟩ := hfirst x (k.start ++ (y ++ i.text ++ b)) (by simp)
        (opens_start hspace hblank _) (by
          have : 0 < k.start.length := Nat.succ_pos _
          simp only [List.length_append]
          omega)
      have hle := hrest.le_start m hm
      simp only [List.length_append] at hle hstart
      omega
    · have hmatch : Match.ofSpot (a ++ v).reverse ⟨(a ++ v ++ i.text).reverse, b, gs⟩ =
          form.found (a ++ v) j := by
        rw [hgroups, hitem]
        rfl
      have htrimmed := ht.trimmed _ (List.mem_cons_self ..)
      rw [hmatch, htext, groupText_attributes, group?_content, hnone] at htrimmed
      exact htrimmed rfl
    · obtain ⟨m, hm, hstart⟩ := hfirst (v ++ i.text ++ x) y (by rw [e]; simp) hy (by
        simp only [List.length_append]
        omega)
      exact ⟨m, hm, by rw [hstart]; simp⟩
    · have htrimmed := ht.trimmed m (List.mem_cons_of_mem _ hm)
      have e' : a ++ (v ++ i.text ++ b) = a ++ v ++ i.text ++ b := by simp
      rwa [e'] at htrimmed

/-- Writing entries into a string table does to the elements that are found in it what `upsert` does
to a list of entries. -/
theorem putAll_upserts_elements {es : List ResourceEntry} (hend : closingTag.occursIn t)
    (hlast : ∀ m ∈ element.findAll t, ∀ pos ∈ Text.findLast? closingTag t, m.stop ≤ pos)
    (hstart : ∀ pos < t.length, opens (t.drop pos) → ∃ m ∈ element.findAll t, m.start = pos)
    (hslash : ∀ m ∈ element.findAll t, m.group? 3 = none →
      (groupText m 2 t).trimEnd.getLast? ≠ some '/')
    (hes : ∀ e ∈ es, Named e) :
    ∃ t', putAll? t es = some t' ∧ entriesOf t' = upsertAll es (entriesOf t) ∧
      writer.Rewrites es t t' ∧ putAll? t' es = some t' := by
  have htold : Told [] t (element.findAll t) := by
    refine ⟨?_, hslash⟩
    rintro x y rfl hy
    refine hstart x.length ?_ (by rwa [List.drop_left])
    cases y with
    | nil => exact nomatch hy
    | cons c y =>
        simp only [List.length_append, List.length_cons]
        omega
  obtain ⟨ss, tail, rfl, hss, htail⟩ :=
    exists_slots ((Pattern.findAll_eq_iff flat_element taking_element).mp rfl) htold
  have hfind : element.findAll (form.slotsText ss ++ tail) = form.foundAll [] ss :=
    Form.findAll_text hss htail
  have htag : closingTag <:+: tail := by
    cases hpos : Text.findLast? closingTag (form.slotsText ss ++ tail) with
    | none => exact absurd (Text.occursIn_iff.mp hend) (Text.findLast?_eq_none_iff.mp hpos)
    | some pos =>
        rw [hfind] at hlast
        exact Form.tag_infix_of_stop_le hpos (by decide) fun m hm => hlast m hm pos hpos
  obtain ⟨ss', tail', hss', htail', hput, hentries, htag', hrewrites, hagain⟩ :=
    writer.foldl_put hss htail htag hes
  have hend' : closingTag.occursIn (form.slotsText ss' ++ tail') :=
    Text.occursIn_iff.mpr (htag'.trans (List.suffix_append _ _).isInfix)
  refine ⟨form.slotsText ss' ++ tail', ?_, ?_, hrewrites, ?_⟩
  · rw [putAll?, if_pos hend]
    exact congrArg some hput
  · rw [entriesOf_text hss htail, entriesOf_text hss' htail']
    exact hentries
  · rw [putAll?, if_pos hend']
    exact congrArg some hagain

/-- A string table with an element that closes itself. -/
def sampleTable : Text := "<string name=\"a\" b/><string name=\"c\">d</string></resources>".toList

/-- Entries whose elements are there and a new one. -/
def sampleEntries : List ResourceEntry :=
  [⟨['a'], ['<'], true⟩, ⟨['c'], ['1'], true⟩, ⟨['n'], ['2'], false⟩]

theorem putAll_upserts_elements_sample :
    closingTag.occursIn sampleTable ∧
      (∀ m ∈ element.findAll sampleTable, ∀ pos ∈ Text.findLast? closingTag sampleTable,
        m.stop ≤ pos) ∧
      (∀ pos < sampleTable.length, opens (sampleTable.drop pos) →
        ∃ m ∈ element.findAll sampleTable, m.start = pos) ∧
      (∀ m ∈ element.findAll sampleTable, m.group? 3 = none →
        (groupText m 2 sampleTable).trimEnd.getLast? ≠ some '/') ∧
      (∀ e ∈ sampleEntries, Named e) ∧
      ∃ t', putAll? sampleTable sampleEntries = some t' ∧
        entriesOf t' = upsertAll sampleEntries (entriesOf sampleTable) ∧
        writer.Rewrites sampleEntries sampleTable t' ∧ putAll? t' sampleEntries = some t' := by
  have hend : closingTag.occursIn sampleTable := by decide
  have hpos : Text.findLast? closingTag sampleTable = some 47 := by decide
  have hfind : element.findAll sampleTable = [⟨0, 20, [(2, 16, 18), (1, 14, 15)]⟩,
      ⟨20, 47, [(3, 37, 38), (2, 36, 36), (1, 34, 35)]⟩] := by decide
  have hlast : ∀ m ∈ element.findAll sampleTable, ∀ pos ∈ Text.findLast? closingTag sampleTable,
      m.stop ≤ pos := by
    rw [hfind, hpos]
    decide
  have hstart : ∀ pos < sampleTable.length, opens (sampleTable.drop pos) →
      ∃ m ∈ element.findAll sampleTable, m.start = pos := by
    rw [hfind]
    decide
  have hslash : ∀ m ∈ element.findAll sampleTable, m.group? 3 = none →
      (groupText m 2 sampleTable).trimEnd.getLast? ≠ some '/' := by
    rw [hfind]
    decide
  have hes : ∀ e ∈ sampleEntries, Named e := by decide
  exact ⟨hend, hlast, hstart, hslash, hes,
    putAll_upserts_elements hend hlast hstart hslash hes⟩

end Graft.StringTable
