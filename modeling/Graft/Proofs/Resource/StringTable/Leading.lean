import Graft.Proofs.Resource.Content
import Graft.Proofs.Resource.Scan
import Graft.Proofs.Resource.StringTable

/-! # Start tags of strings

The pattern finds a string element whose start tag begins with the name; of a tag with the name in
another place it sees nothing (`leading?_of_start`).  The parts of a document in which no string begins
that way keep what follows them quiet, and the others are elements of the form (`Leads.good`). -/

namespace Graft.StringTable

open Markup (Attribute Tag EndsTag attributesText run_inj run_eq_nil Breaks breaks_cons breaks_space
  breaks_name isSpace isNameChar)

variable {g t x y : Text} {c : Char} {tag : Tag} {a : Attribute} {as : List Attribute}

def stringName : Text := ['s', 't', 'r', 'i', 'n', 'g']

def nameName : Text := ['n', 'a', 'm', 'e']

/-- The start tag is that of a string, and the name comes first in it, as it is in the pattern. -/
structure Leads (tag : Tag) (a : Attribute) (as : List Attribute) : Prop where
  name : tag.name = stringName
  attributes : tag.attributes = a :: as
  key : a.name = nameName
  before : a.before = []
  after : a.after = []
  quote : a.quote = '"'

/-- The attribute with the name and the others, if the name comes first. -/
def leading? (tag : Tag) : Option (Attribute × List Attribute) :=
  match tag.attributes with
  | [] => none
  | a :: as =>
    if tag.name = stringName ∧ a.name = nameName ∧ a.before = [] ∧ a.after = [] ∧ a.quote = '"' then
      some (a, as)
    else none

theorem leading?_eq_some_iff : leading? tag = some (a, as) ↔ Leads tag a as := by
  unfold leading?
  constructor
  · intro h
    split at h
    · exact nomatch h
    · next hattributes =>
        split at h
        · next hleads =>
            obtain ⟨rfl, rfl⟩ := Prod.mk.inj (Option.some.inj h)
            obtain ⟨hname, hattribute, hbefore, hafter, hquote⟩ := hleads
            exact ⟨hname, hattributes, hattribute, hbefore, hafter, hquote⟩
        · exact nomatch h
  · intro h
    rw [h.attributes]
    exact if_pos ⟨h.name, h.key, h.before, h.after, h.quote⟩

theorem leading?_of_ne (h : tag.name ≠ stringName) : leading? tag = none := by
  rw [← Option.not_isSome_iff_eq_none, Option.isSome_iff_exists]
  rintro ⟨l, hl⟩
  exact h (leading?_eq_some_iff.mp hl).name

/-- A tag that looks to the pattern like the start of a string has the name first. -/
theorem leading?_of_start (htag : tag.Valid) (hx : EndsTag x) {i : Element} (hne : i.space ≠ [])
    (hblank : i.space.isBlank) (e : '<' :: (tag.text ++ x) = i.start ++ y) :
    (leading? tag).isSome := by
  obtain ⟨d, s, hspace⟩ := List.exists_cons_of_ne_nil hne
  have hd : Graft.isBlank d := List.all_eq_true.mp hblank d (by rw [hspace]; exact List.mem_cons_self ..)
  have hnameStart : Breaks Graft.isBlank (nameStart ++ y) := breaks_cons (by decide) _
  have e1 : tag.name ++ (attributesText tag.attributes ++ (tag.space ++ x)) =
      stringName ++ (i.space ++ (nameStart ++ y)) := by
    have := (List.cons.inj e).2
    simpa [Tag.text, Element.start, opening, stringName] using this
  obtain ⟨hname, e2⟩ := run_inj (p := isNameChar) htag.name (by decide)
    (Markup.breaks_attributes htag.attributes htag.space hx)
    (by rw [hspace]; exact breaks_cons (Markup.isNameChar_of_isBlank hd) _) e1
  cases hattributes : tag.attributes with
  | nil =>
      -- the tag would end where the pattern has the name
      rw [hattributes, Markup.attributesText_nil, List.nil_append] at e2
      have hblankSpace : tag.space.isBlank := Markup.isBlank_of_spaces htag.space
      obtain ⟨-, hend⟩ := run_inj hblankSpace hblank (hx.breaks (by decide)) hnameStart e2
      obtain ⟨c, r, rfl, rfl | rfl⟩ := hx
      · exact absurd (List.cons.inj hend).1 (by decide)
      · exact absurd (List.cons.inj hend).1 (by decide)
  | cons a as =>
      have ha := htag.attributes a (by rw [hattributes]; exact List.mem_cons_self ..)
      rw [hattributes, Markup.attributesText_cons, List.append_assoc, Attribute.text_append] at e2
      have hblankSpace : a.space.isBlank := Markup.isBlank_of_spaces ha.space
      have hnameChar : Breaks Graft.isBlank (a.name ++ (a.before ++ '=' :: (a.after ++ a.quote ::
          (a.value ++ a.quote :: (attributesText as ++ (tag.space ++ x)))))) := by
        cases h : a.name with
        | nil => exact absurd h ha.name_ne
        | cons c r =>
            refine breaks_cons (Markup.isBlank_of_isNameChar (List.all_eq_true.mp ha.name c ?_)) _
            rw [h]
            exact List.mem_cons_self ..
      obtain ⟨-, e3⟩ := run_inj hblankSpace hblank hnameChar hnameStart e2
      have e3' : a.name ++ (a.before ++ '=' :: (a.after ++ a.quote ::
          (a.value ++ a.quote :: (attributesText as ++ (tag.space ++ x))))) =
          nameName ++ '=' :: '"' :: y := e3
      obtain ⟨hkey, e4⟩ := run_inj (p := isNameChar) ha.name (by decide)
        (breaks_space ha.before (breaks_cons (by decide) _)) (breaks_cons (by decide) _) e3'
      obtain ⟨hbefore, e5⟩ := run_eq_nil ha.before (breaks_cons (by decide) _)
        (breaks_cons (by decide) _) e4
      obtain ⟨hafter, e6⟩ := run_eq_nil ha.after (ha.breaks_quote _) (breaks_cons (by decide) _)
        (List.cons.inj e5).2
      have hquote := (List.cons.inj e6).1
      rw [leading?_eq_some_iff.mpr ⟨hname, hattributes, hkey, hbefore, hafter, hquote⟩]
      rfl

/-! ### Texts that keep quiet -/

theorem start_eq (i : Element) : i.start = '<' :: (stringName ++ i.space ++ nameStart) := by
  simp [Element.start, opening, stringName]

theorem notMem_start {i : Element} (hblank : i.space.isBlank) (hc : Graft.isBlank c = false)
    (hno : c ∉ opening ++ nameStart) : c ∉ i.start := by
  unfold Element.start
  rw [List.mem_append, not_or] at hno
  simp only [List.mem_append, not_or]
  refine ⟨⟨hno.1, fun hmem => ?_⟩, hno.2⟩
  have := List.all_eq_true.mp hblank c hmem
  rw [hc] at this
  exact Bool.false_ne_true this

/-- No string begins across a character that the start of a string has not. -/
theorem Quiet.append_cons {y : Text} (hg : Quiet g) (hc : Graft.isBlank c = false)
    (hno : c ∉ opening ++ nameStart) (hy : Quiet y) : Quiet (g ++ c :: y) := by
  intro x i z hne hblank e
  obtain ⟨q, hq, -⟩ | ⟨r, -, hr⟩ := Text.cases_of_cons_append e (notMem_start hblank hc hno)
  · exact hg x i q hne hblank hq
  · exact hy r i z hne hblank hr

/-- What follows a character that the start of a string has not is kept quiet. -/
theorem Quiet.sealed_cons (hg : Quiet g) (hc : Graft.isBlank c = false)
    (hno : c ∉ opening ++ nameStart) (ht : form.Sealed t) : form.Sealed (g ++ c :: t) := by
  intro h hh
  rw [List.append_assoc]
  exact hg.append_cons hc hno (ht h hh)

/-- So is what follows the end of a tag. -/
theorem sealed_of_quiet (h : Quiet (t ++ ['>'])) : form.Sealed (t ++ ['>']) :=
  h.left.sealed_cons (by decide) (by decide) Markup.Form.sealed_nil

theorem sealed_char (hc : c ≠ '<') : form.Sealed [c] := by
  rintro g hg (_ | ⟨d, x⟩) i y hne hblank e
  · exact hc (List.cons.inj e).1
  · exact hg x i y hne hblank (List.cons.inj e).2

/-- A text with one bracket is quiet if no string begins there. -/
theorem quiet_bracket (hbare : '<' ∉ t)
    (h : ∀ (i : Element) y, i.space ≠ [] → i.space.isBlank → '<' :: t ≠ i.start ++ y) :
    Quiet ('<' :: t) := by
  rintro (_ | ⟨d, x⟩) i y hne hblank e
  · exact h i y hne hblank e
  · refine hbare ?_
    rw [(List.cons.inj e).2, start_eq]
    simp

theorem quiet_bracket_of_ne (hbare : '<' ∉ c :: t) (hc : c ≠ 's') : Quiet ('<' :: c :: t) := by
  refine quiet_bracket hbare fun i y _ _ e => hc ?_
  rw [start_eq] at e
  exact (List.cons.inj (List.cons.inj e).2).1

/-- An end tag keeps what follows it quiet. -/
theorem sealed_endTag (htag : tag.Valid) {s : Text} (hs : s.all isSpace) :
    form.Sealed ('<' :: '/' :: tag.name ++ s ++ ['>']) := by
  refine sealed_of_quiet (t := '<' :: '/' :: tag.name ++ s) (quiet_bracket_of_ne ?_ (by decide))
  have hname : '<' ∉ tag.name := Markup.notMem_of_all htag.name (by decide)
  have hspace : '<' ∉ s := Markup.notMem_of_all hs (by decide)
  simp [hname, hspace]

/-- So does a start tag without the name in the first place. -/
theorem sealed_startTag (htag : tag.Valid) (hleading : leading? tag = none) :
    form.Sealed ('<' :: tag.text ++ ['>']) ∧ form.Sealed ('<' :: tag.text ++ ['/', '>']) := by
  have hquiet : ∀ {x : Text}, EndsTag x → '<' ∉ x → Quiet ('<' :: (tag.text ++ x)) := by
    intro x hx hbare
    refine quiet_bracket ?_ fun i y hne hblank e => ?_
    · rw [List.mem_append, not_or]
      exact ⟨htag.bare_text, hbare⟩
    · have := leading?_of_start htag hx hne hblank e
      rw [hleading] at this
      exact nomatch this
  constructor
  · exact sealed_of_quiet (t := '<' :: tag.text) (hquiet ⟨'>', [], rfl, .inl rfl⟩ (by decide))
  · have := sealed_of_quiet (t := '<' :: tag.text ++ ['/'])
      (by simpa using hquiet ⟨'/', ['>'], rfl, .inr rfl⟩ (by decide))
    simpa using this

/-- Quiet text before a tag that keeps quiet. -/
theorem Quiet.sealed_append (hg : Quiet g) (ht : form.Sealed ('<' :: t)) :
    form.Sealed (g ++ '<' :: t) := by
  intro h hh x i y hne hblank e
  have e' : g ++ ('<' :: (t ++ h)) = x ++ (i.start ++ y) := by simpa using e
  obtain ⟨r, -, hr⟩ | ⟨r, hr0, rfl, hr⟩ := Text.append_cases e'
  · exact ht h hh r i y hne hblank (by rw [List.append_assoc, ← hr]; rfl)
  · obtain ⟨q, rfl⟩ := Element.start_prefix hblank hr hr0
    exact hg x i q hne hblank (by rw [List.append_assoc])

/-! ### Elements of the form -/

/-- The element of a start tag that begins with its name. -/
def item (tag : Tag) (a : Attribute) (as : List Attribute) (content : Option Text) : Element :=
  ⟨a.space, a.value, attributesText as ++ tag.space, content⟩

/-- The attributes end in a quote, so that white space is all there is to trim. -/
theorem attributes_end {s : Text} (has : ∀ b ∈ as, b.Valid) (hs : s.isBlank) :
    (attributesText as ++ s).trimEnd = attributesText as ∧
      (attributesText as ++ s).getLast? ≠ some '/' := by
  have hslash : ∀ {u : Text}, u.getLast? ≠ some '/' → (u ++ s).getLast? ≠ some '/' := by
    intro u hu
    rw [List.getLast?_append]
    cases hlast : s.getLast? with
    | none => exact hu
    | some c =>
        rintro ⟨⟩
        exact absurd (List.all_eq_true.mp hs '/' (List.mem_of_getLast? hlast)) (by decide)
  obtain rfl | ⟨bs, b, rfl⟩ := List.eq_nil_or_concat as
  · exact ⟨Text.trimEnd_of_isBlank hs, hslash (by simp)⟩
  · have hb := has b (by simp)
    have hlast : attributesText (bs.concat b) = (attributesText bs ++ b.space ++ b.name ++ b.before ++
        '=' :: b.after ++ b.quote :: b.value) ++ [b.quote] := by
      simp [attributesText, Attribute.text]
    have hquote : Graft.isBlank b.quote = false ∧ b.quote ≠ '/' := by
      obtain h | h := hb.quote
      all_goals
        rw [h]
        decide
    rw [hlast]
    refine ⟨Text.trimEnd_append_last hs hquote.1 _, hslash ?_⟩
    rw [List.getLast?_concat]
    exact fun h => hquote.2 (Option.some.inj h)

namespace Leads

variable (h : Leads tag a as)

include h

theorem text_eq : tag.text = stringName ++ (a.space ++ nameName ++ '=' :: '"' :: a.value ++ ['"']) ++
    attributesText as ++ tag.space := by
  unfold Tag.text
  rw [h.name, h.attributes, Markup.attributesText_cons, Attribute.text, h.key, h.before, h.after,
    h.quote]
  simp

theorem text_item_none : '<' :: tag.text ++ ['/', '>'] = (item tag a as none).text := by
  rw [h.text_eq]
  simp [item, Element.text, Element.start, Element.finish, opening, nameStart, stringName, nameName]

theorem text_item_some (content : Text) :
    '<' :: tag.text ++ '>' :: content ++ '<' :: '/' :: tag.name ++ ['>'] =
      (item tag a as (some content)).text := by
  rw [h.text_eq, h.name]
  simp [item, Element.text, Element.start, Element.finish, opening, nameStart, stringName, nameName,
    closing]

theorem good_item (htag : tag.Valid) (hne : a.value ≠ []) (hbare : '>' ∉ attributesText as)
    {content : Option Text} (hcontent : ∀ u, content = some u → ¬closing <:+: u) :
    (item tag a as content).Good := by
  have ha := htag.attributes a (by rw [h.attributes]; exact List.mem_cons_self ..)
  have has : ∀ b ∈ as, b.Valid := fun b hb =>
    htag.attributes b (by rw [h.attributes]; exact List.mem_cons_of_mem _ hb)
  have hspace : tag.space.isBlank := Markup.isBlank_of_spaces htag.space
  obtain ⟨htrim, hend⟩ := attributes_end has hspace
  have hvalue := ha.value
  rw [h.quote] at hvalue
  refine ⟨⟨⟨ha.space_ne, Markup.isBlank_of_spaces ha.space, hne, hvalue, ?_⟩, fun _ => hend, ?_⟩, ?_⟩
  · unfold item
    rw [List.mem_append, not_or]
    exact ⟨hbare, Markup.notMem_of_all htag.space (by decide)⟩
  · rintro u hu x y e
    exact Markup.endsFirst_of_not_infix (by decide) (hcontent u hu) x y e
  · intro _
    unfold item
    rw [htrim]
    have := (attributes_end has (s := []) rfl).2
    rwa [List.append_nil] at this

/-- A string that closes itself is opened by writing to it. -/
theorem exists_set_none (htag : tag.Valid) (v : Text) : ∃ tag' a', tag'.Valid ∧ Leads tag' a' as ∧
    a'.value = a.value ∧ ((item tag a as none).set v).text =
      '<' :: tag'.text ++ '>' :: v ++ '<' :: '/' :: tag'.name ++ ['>'] := by
  have ha := htag.attributes a (by rw [h.attributes]; exact List.mem_cons_self ..)
  have has : ∀ b ∈ as, b.Valid := fun b hb =>
    htag.attributes b (by rw [h.attributes]; exact List.mem_cons_of_mem _ hb)
  have hnodup := htag.nodup
  rw [h.attributes] at hnodup
  have hleads : Leads ⟨stringName, { a with space := [' '] } :: as, []⟩ { a with space := [' '] } as :=
    ⟨rfl, rfl, h.key, h.before, h.after, h.quote⟩
  refine ⟨_, _, ⟨List.cons_ne_nil _ _, rfl, ?_, hnodup, rfl⟩, hleads, rfl, ?_⟩
  · exact List.forall_mem_cons.mpr ⟨⟨by simp, rfl, ha.name_ne, ha.name, ha.before, ha.after,
      ha.quote, ha.value, ha.bare⟩, has⟩
  · rw [hleads.text_item_some v]
    unfold Element.set item
    simp only
    rw [(attributes_end has (Markup.isBlank_of_spaces htag.space)).1, List.append_nil]

end Leads

end Graft.StringTable
