import Graft.Proofs.Resource.Closing
import Graft.Proofs.Text.Apart
import Mathlib.Tactic.MkIffOfInductiveProp

/-! # Tags and asides

The parts that markup is made of besides characters: start tags with their attributes, and asides, which
are comments, character data, instructions and declarations.  Each says itself where it ends, so that
there is one way to read it at the front of a text (`Tag.text_inj`, `Aside.text_inj`). -/

namespace Graft.Markup

variable {x x' y y' : Text} {c d : Char} {p : Char → Bool}

/-! ### Runs of characters -/

/-- The text does not begin with a character of a kind. -/
def Breaks (p : Char → Bool) (t : Text) : Prop := ∀ c, t.head? = some c → p c = false

theorem breaks_cons (h : p c = false) (t : Text) : Breaks p (c :: t) := by
  rintro d ⟨⟩
  exact h

/-- A run of characters of one kind, up to something else, can be read in one way. -/
theorem run_inj (hx : x.all p) (hx' : x'.all p) (hy : Breaks p y) (hy' : Breaks p y')
    (e : x ++ y = x' ++ y') : x = x' ∧ y = y' := by
  have hrun : ∀ {x y : Text}, x.all p → Breaks p y → (x ++ y).takeWhile p = x := by
    intro x y hx hy
    have hnil : y.takeWhile p = [] := by
      cases y with
      | nil => rfl
      | cons c y => rw [List.takeWhile_cons, hy c rfl, if_neg Bool.false_ne_true]
    rw [List.takeWhile_append_of_pos (List.all_eq_true.mp hx), hnil, List.append_nil]
  have hxx : x = x' := by rw [← hrun hx hy, e, hrun hx' hy']
  subst hxx
  exact ⟨rfl, List.append_cancel_left e⟩

theorem run_eq_nil (hx : x.all p) (hy : Breaks p y) (hy' : Breaks p y') (e : x ++ y = y') :
    x = [] ∧ y = y' :=
  run_inj hx (show [].all p from rfl) hy hy' e

/-- White space of markup. -/
def isSpace (c : Char) : Bool := c = ' ' || c = '\t' || c = '\n' || c = '\r'

theorem isBlank_of_isSpace (h : isSpace c) : Graft.isBlank c := by
  simp only [isSpace, Bool.or_eq_true, decide_eq_true_eq] at h
  obtain ((rfl | rfl) | rfl) | rfl := h
  all_goals decide

theorem isBlank_of_spaces (h : x.all isSpace) : x.isBlank :=
  List.all_eq_true.mpr fun c hc => isBlank_of_isSpace (List.all_eq_true.mp h c hc)

/-- A character that names of elements and attributes are made of. -/
def isNameChar (c : Char) : Bool :=
  !Graft.isBlank c && !List.contains ['<', '>', '/', '=', '"', '\'', '!', '?'] c

theorem isNameChar_of_isBlank (h : Graft.isBlank c) : isNameChar c = false := by
  simp [isNameChar, h]

theorem isNameChar_of_isSpace (h : isSpace c) : isNameChar c = false :=
  isNameChar_of_isBlank (isBlank_of_isSpace h)

theorem isBlank_of_isNameChar (h : isNameChar c) : Graft.isBlank c = false := by
  rw [← Bool.not_eq_true]
  intro hblank
  rw [isNameChar_of_isBlank hblank] at h
  exact Bool.false_ne_true h

theorem isSpace_of_isNameChar (h : isNameChar c) : isSpace c = false := by
  rw [← Bool.not_eq_true]
  intro hspace
  rw [isNameChar_of_isSpace hspace] at h
  exact Bool.false_ne_true h

/-! ### Tags -/

/-- An attribute with the white space in it. -/
structure Attribute where
  space : Text
  name : Text
  before : Text
  after : Text
  quote : Char
  value : Text
  deriving DecidableEq, Repr

namespace Attribute

def text (a : Attribute) : Text :=
  a.space ++ a.name ++ a.before ++ '=' :: a.after ++ a.quote :: a.value ++ [a.quote]

@[mk_iff]
structure Valid (a : Attribute) : Prop where
  space_ne : a.space ≠ []
  space : a.space.all isSpace
  name_ne : a.name ≠ []
  name : a.name.all isNameChar
  before : a.before.all isSpace
  after : a.after.all isSpace
  quote : a.quote = '"' ∨ a.quote = '\''
  value : a.quote ∉ a.value
  bare : '<' ∉ a.value

instance (a : Attribute) : Decidable a.Valid := decidable_of_iff' _ a.valid_iff

end Attribute

/-- What stands between the brackets of a start tag. -/
structure Tag where
  name : Text
  attributes : List Attribute
  space : Text
  deriving DecidableEq, Repr

/-- The text of some attributes. -/
def attributesText (as : List Attribute) : Text := as.flatMap Attribute.text

namespace Tag

def text (tag : Tag) : Text := tag.name ++ attributesText tag.attributes ++ tag.space

@[mk_iff]
structure Valid (tag : Tag) : Prop where
  name_ne : tag.name ≠ []
  name : tag.name.all isNameChar
  attributes : ∀ a ∈ tag.attributes, a.Valid
  nodup : (tag.attributes.map Attribute.name).Nodup
  space : tag.space.all isSpace

instance (tag : Tag) : Decidable tag.Valid := decidable_of_iff' _ tag.valid_iff

/-- The value of the attribute with a name. -/
def value? (tag : Tag) (name : Text) : Option Text :=
  (tag.attributes.find? fun a => a.name = name).map Attribute.value

end Tag

/-- What ends a start tag. -/
def EndsTag (t : Text) : Prop := ∃ c s, t = c :: s ∧ (c = '>' ∨ c = '/')

theorem EndsTag.breaks (h : EndsTag y) (hp : p '>' = false ∧ p '/' = false) : Breaks p y := by
  obtain ⟨c, s, rfl, rfl | rfl⟩ := h
  · exact breaks_cons hp.1 s
  · exact breaks_cons hp.2 s

theorem breaks_space {s t : Text} (hs : s.all isSpace) (ht : Breaks isNameChar t) :
    Breaks isNameChar (s ++ t) := by
  cases s with
  | nil => exact ht
  | cons c s => exact breaks_cons (isNameChar_of_isSpace (List.all_eq_true.mp hs c (by simp))) _

theorem breaks_name {s : Text} (hne : s ≠ []) (hs : s.all isNameChar) (t : Text) :
    Breaks isSpace (s ++ t) := by
  cases s with
  | nil => exact absurd rfl hne
  | cons c s =>
      exact breaks_cons (isSpace_of_isNameChar (List.all_eq_true.mp hs c (by simp))) _

namespace Attribute

variable {a a' : Attribute}

theorem text_append (a : Attribute) (t : Text) : a.text ++ t =
    a.space ++ (a.name ++ (a.before ++ '=' :: (a.after ++ a.quote :: (a.value ++ a.quote :: t)))) := by
  simp [text]

theorem Valid.breaks_quote (h : a.Valid) (t : Text) : Breaks isSpace (a.quote :: t) := by
  refine breaks_cons ?_ t
  obtain h | h := h.quote
  all_goals
    rw [h]
    decide

theorem text_inj (h : a.Valid) (h' : a'.Valid) (e : a.text ++ x = a'.text ++ y) : a = a' ∧ x = y := by
  have heq : ∀ t : Text, Breaks isNameChar ('=' :: t) := breaks_cons (by decide)
  rw [text_append, text_append] at e
  obtain ⟨h1, e⟩ := run_inj h.space h'.space (breaks_name h.name_ne h.name _)
    (breaks_name h'.name_ne h'.name _) e
  obtain ⟨h2, e⟩ := run_inj h.name h'.name (breaks_space h.before (heq _))
    (breaks_space h'.before (heq _)) e
  obtain ⟨h3, e⟩ := run_inj h.before h'.before (breaks_cons (by decide) _)
    (breaks_cons (by decide) _) e
  obtain ⟨-, e⟩ := List.cons.inj e
  obtain ⟨h4, e⟩ := run_inj h.after h'.after (h.breaks_quote _) (h'.breaks_quote _) e
  obtain ⟨h5, e⟩ := List.cons.inj e
  have hvalue := h'.value
  rw [← h5] at e hvalue
  obtain ⟨h6, rfl⟩ := Text.append_cons_inj h.value hvalue e
  obtain ⟨space, name, before, after, quote, value⟩ := a
  obtain ⟨space', name', before', after', quote', value'⟩ := a'
  simp only at h1 h2 h3 h4 h5 h6
  exact ⟨by rw [h1, h2, h3, h4, h5, h6], rfl⟩

end Attribute

@[simp] theorem attributesText_nil : attributesText [] = [] := rfl

theorem attributesText_cons (a : Attribute) (as : List Attribute) :
    attributesText (a :: as) = a.text ++ attributesText as := List.flatMap_cons

theorem attributesText_inj {as as' : List Attribute} {s s' : Text} (h : ∀ a ∈ as, a.Valid)
    (h' : ∀ a ∈ as', a.Valid) (hs : s.all isSpace) (hs' : s'.all isSpace) (hx : EndsTag x)
    (hy : EndsTag y) (e : attributesText as ++ (s ++ x) = attributesText as' ++ (s' ++ y)) :
    as = as' ∧ s = s' ∧ x = y := by
  -- white space before the end of the tag is not that before the name of an attribute
  have hend : ∀ {a : Attribute} {s x t : Text}, a.Valid → s.all isSpace → EndsTag x →
      s ++ x ≠ a.text ++ t := by
    intro a s x t ha hs hx e
    rw [a.text_append] at e
    obtain ⟨-, hname⟩ := run_inj hs ha.space (hx.breaks (by decide)) (breaks_name ha.name_ne ha.name _) e
    have hname' : [] ++ x = a.name ++ _ := hname
    obtain ⟨hnil, -⟩ := run_inj (p := isNameChar) rfl ha.name (hx.breaks (by decide))
      (breaks_space ha.before (breaks_cons (by decide) _)) hname'
    exact ha.name_ne hnil.symm
  induction as generalizing as' with
  | nil =>
      rw [attributesText_nil, List.nil_append] at e
      cases as' with
      | nil =>
          obtain ⟨hs, hx⟩ := run_inj hs hs' (hx.breaks (by decide)) (hy.breaks (by decide)) e
          exact ⟨rfl, hs, hx⟩
      | cons a as' =>
          rw [attributesText_cons, List.append_assoc] at e
          exact absurd e (hend (h' a (List.mem_cons_self ..)) hs hx)
  | cons a as ih =>
      rw [attributesText_cons, List.append_assoc] at e
      cases as' with
      | nil =>
          rw [attributesText_nil, List.nil_append] at e
          exact absurd e.symm (hend (h a (List.mem_cons_self ..)) hs' hy)
      | cons a' as' =>
          rw [attributesText_cons, List.append_assoc] at e
          obtain ⟨rfl, erest⟩ := Attribute.text_inj (h a (List.mem_cons_self ..))
            (h' a' (List.mem_cons_self ..)) e
          obtain ⟨rfl, hs, hx⟩ := ih (fun a ha => h a (List.mem_cons_of_mem _ ha))
            (fun a ha => h' a (List.mem_cons_of_mem _ ha)) erest
          exact ⟨rfl, hs, hx⟩

theorem breaks_attributes {as : List Attribute} {s : Text} (h : ∀ a ∈ as, a.Valid)
    (hs : s.all isSpace) (hx : EndsTag x) : Breaks isNameChar (attributesText as ++ (s ++ x)) := by
  cases as with
  | nil =>
      rw [attributesText_nil, List.nil_append]
      exact breaks_space hs (hx.breaks (by decide))
  | cons a as =>
      have ha := h a (List.mem_cons_self ..)
      rw [attributesText_cons, List.append_assoc, Attribute.text_append]
      cases hspace : a.space with
      | nil => exact absurd hspace ha.space_ne
      | cons c t =>
          refine breaks_cons (isNameChar_of_isSpace (List.all_eq_true.mp ha.space c ?_)) _
          rw [hspace]
          exact List.mem_cons_self ..

theorem Tag.text_inj {tag tag' : Tag} (h : tag.Valid) (h' : tag'.Valid) (hx : EndsTag x)
    (hy : EndsTag y) (e : tag.text ++ x = tag'.text ++ y) : tag = tag' ∧ x = y := by
  unfold Tag.text at e
  simp only [List.append_assoc] at e
  obtain ⟨hname, e⟩ := run_inj h.name h'.name (breaks_attributes h.attributes h.space hx)
    (breaks_attributes h'.attributes h'.space hy) e
  obtain ⟨has, hs, rfl⟩ := attributesText_inj h.attributes h'.attributes h.space h'.space hx hy e
  obtain ⟨name, as, s⟩ := tag
  obtain ⟨name', as', s'⟩ := tag'
  simp only at hname has hs
  exact ⟨by rw [hname, has, hs], rfl⟩

theorem notMem_of_all (h : x.all p) (hd : p d = false) : d ∉ x := by
  intro hmem
  rw [List.all_eq_true.mp h d hmem] at hd
  exact Bool.false_ne_true hd.symm

theorem Attribute.Valid.bare_text {a : Attribute} (h : a.Valid) : '<' ∉ a.text := by
  have hquote : '<' ≠ a.quote := by
    obtain h | h := h.quote
    all_goals
      rw [h]
      decide
  simp only [text, List.mem_append, List.mem_cons, List.not_mem_nil, or_false, not_or]
  have hspace : '<' ∉ a.space := notMem_of_all h.space (by decide)
  have hname : '<' ∉ a.name := notMem_of_all h.name (by decide)
  have hbefore : '<' ∉ a.before := notMem_of_all h.before (by decide)
  have hafter : '<' ∉ a.after := notMem_of_all h.after (by decide)
  exact ⟨⟨⟨⟨⟨hspace, hname⟩, hbefore⟩, by decide, hafter⟩, hquote, h.bare⟩, hquote⟩

/-- A start tag holds no bracket that opens. -/
theorem Tag.Valid.bare_text {tag : Tag} (h : tag.Valid) : '<' ∉ tag.text := by
  simp only [text, attributesText, List.mem_append, List.mem_flatMap, not_or]
  refine ⟨⟨notMem_of_all h.name (by decide), ?_⟩, notMem_of_all h.space (by decide)⟩
  rintro ⟨a, ha, hmem⟩
  exact (h.attributes a ha).bare_text hmem

/-! ### Asides -/

/-- Kinds of markup that is no element. -/
inductive AsideKind where
  | comment
  | characters
  | instruction
  | declaration
  deriving DecidableEq, Repr

namespace AsideKind

def opening : AsideKind → Text
  | comment => ['<', '!', '-', '-']
  | characters => ['<', '!', '[', 'C', 'D', 'A', 'T', 'A', '[']
  | instruction => ['<', '?']
  | declaration => ['<', '!']

def closing : AsideKind → Text
  | comment => ['-', '-', '>']
  | characters => [']', ']', '>']
  | instruction => ['?', '>']
  | declaration => ['>']

end AsideKind

/-- A word comes behind a text for the first time. -/
def EndsFirst (w t : Text) : Prop := ∀ x y, t ++ w = x ++ w ++ y → y = []

theorem endsFirst_iff {w t : Text} : EndsFirst w t ↔ ∀ n < t.length, ¬w <+: (t ++ w).drop n := by
  constructor
  · rintro h n hn ⟨y, hy⟩
    have e : t ++ w = (t ++ w).take n ++ w ++ y := by
      rw [List.append_assoc, hy, List.take_append_drop]
    obtain rfl := h _ _ e
    have hlen := congrArg List.length e
    rw [List.append_nil, List.length_append, List.length_append, List.length_take,
      List.length_append] at hlen
    omega
  · intro h x y e
    refine Classical.byContradiction fun hy => ?_
    have hlen := congrArg List.length e
    have hpos := List.length_pos_iff.mpr hy
    simp only [List.length_append] at hlen
    refine h x.length (by omega) ⟨y, ?_⟩
    rw [e, List.append_assoc, List.drop_left]

instance (w t : Text) : Decidable (EndsFirst w t) := decidable_of_iff _ endsFirst_iff.symm

/-- What is closed by a word can be read in one way. -/
theorem EndsFirst.inj {w t t' : Text} (h : EndsFirst w t) (h' : EndsFirst w t')
    (e : t ++ (w ++ x) = t' ++ (w ++ y)) : t = t' ∧ x = y := by
  have hcut : ∀ {t t' x y : Text}, EndsFirst w t' → t ++ (w ++ x) = t' ++ (w ++ y) →
      t.length ≤ t'.length → t = t' := by
    intro t t' x y h' e hlen
    have hpre : t ++ w <+: t' ++ w :=
      List.prefix_of_prefix_length_le (show t ++ w <+: t ++ (w ++ x) from ⟨x, by simp⟩)
        ⟨y, by rw [e]; simp⟩ (by simpa using hlen)
    obtain ⟨z, hz⟩ := hpre
    obtain rfl := h' t z hz.symm
    rw [List.append_nil] at hz
    exact List.append_cancel_right hz
  have ht : t = t' := by
    rcases Nat.le_total t.length t'.length with hlen | hlen
    · exact hcut h' e hlen
    · exact (hcut h e.symm hlen).symm
  subst ht
  exact ⟨rfl, List.append_cancel_left (List.append_cancel_left e)⟩

/-- A word that cannot start inside itself comes first behind a text that does not mention it. -/
theorem endsFirst_of_not_infix {w t : Text} (hw : Text.startsIn w w.tail = false) (h : ¬w <:+: t) :
    EndsFirst w t := by
  intro x y e
  obtain ⟨r, hr, -⟩ | ⟨r, -, hr⟩ | ⟨v, z, hv, hz, hvz, -, hzy⟩ := Text.cut_cases e
  · exact absurd ⟨x, r, hr.symm⟩ h
  · have hlen := congrArg List.length hr
    simp only [List.length_append] at hlen
    exact List.eq_nil_of_length_eq_zero (by omega)
  · obtain ⟨c, v, rfl⟩ := List.exists_cons_of_ne_nil hv
    have htail : w.tail = v ++ z := by
      rw [hvz]
      rfl
    rw [htail, Text.startsIn_of_suffix hz (.inr ⟨y, hzy.symm⟩)] at hw
    exact absurd hw.symm Bool.false_ne_true

structure Aside where
  kind : AsideKind
  body : Text
  deriving DecidableEq, Repr

namespace Aside

variable {a a' : Aside}

def text (a : Aside) : Text := a.kind.opening ++ a.body ++ a.kind.closing

@[mk_iff]
structure Valid (a : Aside) : Prop where
  closed : EndsFirst a.kind.closing a.body
  /-- A declaration does not look like a comment or like character data. -/
  declared : a.kind = .declaration → a.body.head? ≠ some '-' ∧ a.body.head? ≠ some '['

instance (a : Aside) : Decidable a.Valid := decidable_of_iff' _ a.valid_iff

/-- The kind of the aside that a text begins with. -/
def kindOf (t : Text) : AsideKind :=
  if t.tail.head? = some '?' then .instruction
  else if t.tail.tail.head? = some '-' then .comment
  else if t.tail.tail.head? = some '[' then .characters
  else .declaration

theorem Valid.kindOf_eq (h : a.Valid) (x : Text) : kindOf (a.text ++ x) = a.kind := by
  obtain ⟨kind, body⟩ := a
  cases kind with
  | comment => rfl
  | characters => rfl
  | instruction => rfl
  | declaration =>
      obtain ⟨hcomment, hcharacters⟩ := h.declared rfl
      cases body with
      | nil => rfl
      | cons c body =>
          have hc : c ≠ '-' := fun e => hcomment (by rw [e]; rfl)
          have hc' : c ≠ '[' := fun e => hcharacters (by rw [e]; rfl)
          simp [kindOf, text, AsideKind.opening, hc, hc']

theorem text_inj (h : a.Valid) (h' : a'.Valid) (e : a.text ++ x = a'.text ++ y) :
    a = a' ∧ x = y := by
  have hkind : a.kind = a'.kind := by rw [← h.kindOf_eq x, e, h'.kindOf_eq]
  have hclosed := h'.closed
  obtain ⟨kind, body⟩ := a
  obtain ⟨kind', body'⟩ := a'
  simp only at hkind
  subst hkind
  unfold text at e
  simp only [List.append_assoc] at e
  obtain ⟨rfl, rfl⟩ := h.closed.inj hclosed (List.append_cancel_left e)
  exact ⟨rfl, rfl⟩

theorem getLast?_text (a : Aside) : a.text.getLast? = some '>' := by
  obtain ⟨kind, body⟩ := a
  unfold text
  rw [List.getLast?_append]
  cases kind with
  | comment => rfl
  | characters => rfl
  | instruction => rfl
  | declaration => rfl

end Aside

end Graft.Markup
