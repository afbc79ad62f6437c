import Graft.Proofs.Resource.Tag

/-! # Markup as content

A markup document is read as characters, asides and elements, one after the other.  A text has at most
one such reading (`Content.text_inj`): every part begins in its own way and says where it ends. -/

namespace Graft.Markup

variable {x y : Text}

/-! ### Content -/

/-- Characters, asides and elements, one after the other.  An element has a start tag and, unless it
closes itself, content and an end tag. -/
inductive Content where
  | done
  | char (c : Char) (rest : Content)
  | aside (a : Aside) (rest : Content)
  | empty (tag : Tag) (rest : Content)
  | element (tag : Tag) (inner : Content) (space : Text) (rest : Content)
  deriving DecidableEq, Repr

namespace Content

variable {k k' : Content}

def text : Content → Text
  | done => []
  | char c rest => c :: rest.text
  | aside a rest => a.text ++ rest.text
  | empty tag rest => '<' :: tag.text ++ '/' :: '>' :: rest.text
  | element tag inner space rest =>
    '<' :: tag.text ++ '>' :: inner.text ++ '<' :: '/' :: tag.name ++ space ++ '>' :: rest.text

def Valid : Content → Prop
  | done => True
  | char c rest => c ≠ '<' ∧ rest.Valid
  | aside a rest => a.Valid ∧ rest.Valid
  | empty tag rest => tag.Valid ∧ rest.Valid
  | element tag inner space rest => tag.Valid ∧ inner.Valid ∧ space.all isSpace ∧ rest.Valid

instance decidableValid : (k : Content) → Decidable k.Valid
  | done => isTrue trivial
  | char _ rest =>
    have := decidableValid rest
    inferInstanceAs (Decidable (_ ∧ _))
  | aside _ rest =>
    have := decidableValid rest
    inferInstanceAs (Decidable (_ ∧ _))
  | empty _ rest =>
    have := decidableValid rest
    inferInstanceAs (Decidable (_ ∧ _))
  | element _ inner _ rest =>
    have := decidableValid inner
    have := decidableValid rest
    inferInstanceAs (Decidable (_ ∧ _ ∧ _ ∧ _))

/-- How a part of a document begins. -/
inductive Lead where
  | stop
  | char
  | aside
  | tag
  deriving DecidableEq

/-- How a text begins. -/
def leadOf (t : Text) : Lead :=
  if t.head? = some '<' then
    if t.tail.head? = some '/' then .stop
    else if t.tail.head? = some '!' ∨ t.tail.head? = some '?' then .aside
    else .tag
  else if t = [] then .stop
  else .char

def lead : Content → Lead
  | done => .stop
  | char .. => .char
  | aside .. => .aside
  | empty .. => .tag
  | element .. => .tag

theorem leadOf_tag {tag : Tag} (h : tag.Valid) (x : Text) : leadOf ('<' :: (tag.text ++ x)) = .tag := by
  have hname := h.name
  cases e : tag.name with
  | nil => exact absurd e h.name_ne
  | cons c name =>
      rw [e] at hname
      have hc := List.all_eq_true.mp hname c (List.mem_cons_self ..)
      have hne : ∀ d, isNameChar d = false → c ≠ d := fun d hd hcd => by
        rw [hcd, hd] at hc
        exact Bool.false_ne_true hc
      have h1 := hne '/' (by decide)
      have h2 := hne '!' (by decide)
      have h3 := hne '?' (by decide)
      simp [leadOf, Tag.text, e, h1, h2, h3]

theorem leadOf_text (h : k.Valid) {x : Text} (hx : leadOf x = .stop) :
    leadOf (k.text ++ x) = k.lead := by
  cases k with
  | done => exact hx
  | char c rest => simp [leadOf, text, lead, h.1]
  | aside a rest =>
      obtain ⟨kind, body⟩ := a
      cases kind with
      | comment => rfl
      | characters => rfl
      | instruction => rfl
      | declaration => rfl
  | empty tag rest =>
      simp only [text, List.append_assoc, List.cons_append]
      exact leadOf_tag h.1 _
  | element tag inner space rest =>
      simp only [text, List.append_assoc, List.cons_append]
      exact leadOf_tag h.1 _

theorem lead_eq (h : k.Valid) (h' : k'.Valid) (hx : leadOf x = .stop) (hy : leadOf y = .stop)
    (e : k.text ++ x = k'.text ++ y) : k.lead = k'.lead := by
  rw [← leadOf_text h hx, e, leadOf_text h' hy]

/-- A text can be read in at most one way, up to its end or an end tag. -/
theorem text_append_inj (h : k.Valid) (h' : k'.Valid) (hx : leadOf x = .stop)
    (hy : leadOf y = .stop) (e : k.text ++ x = k'.text ++ y) : k = k' ∧ x = y := by
  have hends : ∀ {c : Char} {t : Text}, c = '>' ∨ c = '/' → EndsTag (c :: t) := fun hc =>
    ⟨_, _, rfl, hc⟩
  induction k generalizing k' x y with
  | done =>
      have hlead := lead_eq h h' hx hy e
      cases k' with
      | done => exact ⟨rfl, e⟩
      | char | aside | empty | element => exact nomatch hlead
  | char c rest ih =>
      have hlead := lead_eq h h' hx hy e
      cases k' with
      | char c' rest' =>
          obtain ⟨rfl, hrest⟩ := List.cons.inj e
          obtain ⟨rfl, rfl⟩ := ih h.2 h'.2 hx hy hrest
          exact ⟨rfl, rfl⟩
      | done | aside | empty | element => exact nomatch hlead
  | aside a rest ih =>
      have hlead := lead_eq h h' hx hy e
      cases k' with
      | aside a' rest' =>
          simp only [text, List.append_assoc] at e
          obtain ⟨rfl, hrest⟩ := Aside.text_inj h.1 h'.1 e
          obtain ⟨rfl, rfl⟩ := ih h.2 h'.2 hx hy hrest
          exact ⟨rfl, rfl⟩
      | done | char | empty | element => exact nomatch hlead
  | empty tag rest ih =>
      have hlead := lead_eq h h' hx hy e
      cases k' with
      | empty tag' rest' =>
          simp only [text, List.append_assoc, List.cons_append] at e
          obtain ⟨rfl, hrest⟩ := Tag.text_inj h.1 h'.1 (hends (.inr rfl)) (hends (.inr rfl))
            (List.cons.inj e).2
          obtain ⟨rfl, rfl⟩ := ih h.2 h'.2 hx hy (List.cons.inj (List.cons.inj hrest).2).2
          exact ⟨rfl, rfl⟩
      | element tag' inner' space' rest' =>
          simp only [text, List.append_assoc, List.cons_append] at e
          obtain ⟨-, hrest⟩ := Tag.text_inj h.1 h'.1 (hends (.inr rfl)) (hends (.inl rfl))
            (List.cons.inj e).2
          exact absurd (List.cons.inj hrest).1 (by decide)
      | done | char | aside => exact nomatch hlead
  | element tag inner space rest ihinner ih =>
      have hlead := lead_eq h h' hx hy e
      cases k' with
      | empty tag' rest' =>
          simp only [text, List.append_assoc, List.cons_append] at e
          obtain ⟨-, hrest⟩ := Tag.text_inj h.1 h'.1 (hends (.inl rfl)) (hends (.inr rfl))
            (List.cons.inj e).2
          exact absurd (List.cons.inj hrest).1 (by decide)
      | element tag' inner' space' rest' =>
          simp only [text, List.append_assoc, List.cons_append] at e
          obtain ⟨rfl, hinner⟩ := Tag.text_inj h.1 h'.1 (hends (.inl rfl)) (hends (.inl rfl))
            (List.cons.inj e).2
          obtain ⟨rfl, hend⟩ := ihinner h.2.1 h'.2.1 rfl rfl (List.cons.inj hinner).2
          obtain ⟨rfl, hrest⟩ := run_inj h.2.2.1 h'.2.2.1 (breaks_cons (by decide) _)
            (breaks_cons (by decide) _)
            (List.append_cancel_left (List.cons.inj (List.cons.inj hend).2).2)
          obtain ⟨rfl, rfl⟩ := ih h.2.2.2 h'.2.2.2 hx hy (List.cons.inj hrest).2
          exact ⟨rfl, rfl⟩
      | done | char | aside => exact nomatch hlead

theorem text_inj (h : k.Valid) (h' : k'.Valid) (e : k.text = k'.text) : k = k' :=
  (text_append_inj (x := []) (y := []) h h' rfl rfl (by rw [e])).1

/-! ### One content behind another -/

def append : Content → Content → Content
  | done, l => l
  | char c rest, l => char c (rest.append l)
  | aside a rest, l => aside a (rest.append l)
  | empty tag rest, l => empty tag (rest.append l)
  | element tag inner space rest, l => element tag inner space (rest.append l)

/-- The characters of a text. -/
def ofText (t : Text) : Content := t.foldr char done

@[simp] theorem text_append (k l : Content) : (k.append l).text = k.text ++ l.text := by
  induction k with
  | done => rfl
  | char c rest ih => simp [append, text, ih]
  | aside a rest ih => simp [append, text, ih]
  | empty tag rest ih => simp [append, text, ih]
  | element tag inner space rest _ ih => simp [append, text, ih]

@[simp] theorem valid_append {l : Content} : (k.append l).Valid ↔ k.Valid ∧ l.Valid := by
  induction k with
  | done => simp [append, Valid]
  | char c rest ih => simp [append, Valid, ih, and_assoc]
  | aside a rest ih => simp [append, Valid, ih, and_assoc]
  | empty tag rest ih => simp [append, Valid, ih, and_assoc]
  | element tag inner space rest _ ih => simp [append, Valid, ih, and_assoc]

@[simp] theorem text_ofText (t : Text) : (ofText t).text = t := by
  induction t with
  | nil => rfl
  | cons c t ih => exact congrArg (c :: ·) ih

theorem valid_ofText {t : Text} (h : '<' ∉ t) : (ofText t).Valid := by
  induction t with
  | nil => trivial
  | cons c t ih =>
      rw [List.mem_cons, not_or] at h
      exact ⟨Ne.symm h.1, ih h.2⟩

theorem notMem_of_isBlank {s : Text} (hs : s.isBlank) : '<' ∉ s := notMem_of_all hs (by decide)

/-- A text without brackets is read as characters. -/
theorem eq_ofText {w : Text} (hw : '<' ∉ w) (e : k.text = w) : k = ofText w := by
  subst e
  induction k with
  | done => rfl
  | char c rest ih => exact congrArg (char c) (ih fun h => hw (List.mem_cons_of_mem c h))
  | aside a rest ih =>
      obtain ⟨kind, body⟩ := a
      cases kind with
      | comment | characters | instruction | declaration => exact absurd (List.mem_cons_self ..) hw
  | empty tag rest ih => exact absurd (List.mem_cons_self ..) hw
  | element tag inner space rest => exact absurd (List.mem_cons_self ..) hw

/-- White space at the end of a content is made of characters. -/
theorem exists_append_ofText {u w : Text} (hw : w.isBlank) (e : k.text = u ++ w) :
    ∃ l : Content, k = l.append (ofText w) ∧ l.text = u := by
  -- what ends in a bracket lies before the white space
  have hpart : ∀ {t r u : Text}, t.getLast? = some '>' → t ++ r = u ++ w →
      ∃ u', u = t ++ u' ∧ r = u' ++ w := by
    intro t r u ht e
    obtain h | ⟨v, hv, rfl, hwv⟩ := Text.append_cases e
    · exact h
    · rw [List.getLast?_append, List.getLast?_eq_some_getLast hv, Option.some_or] at ht
      have hmem : '>' ∈ w := by
        rw [hwv, ← Option.some.inj ht]
        exact List.mem_append_left _ (List.getLast_mem hv)
      exact absurd (List.all_eq_true.mp hw _ hmem) (by decide)
  induction k generalizing u with
  | done =>
      obtain ⟨rfl, rfl⟩ := List.append_eq_nil_iff.mp e.symm
      exact ⟨done, rfl, rfl⟩
  | char c rest ih =>
      cases u with
      | nil => exact ⟨done, eq_ofText (notMem_of_isBlank hw) e, rfl⟩
      | cons d u =>
          obtain ⟨rfl, hrest⟩ := List.cons.inj e
          obtain ⟨l, rfl, rfl⟩ := ih hrest
          exact ⟨char c l, rfl, rfl⟩
  | aside a rest ih =>
      obtain ⟨u', rfl, h⟩ := hpart a.getLast?_text e
      obtain ⟨l, rfl, rfl⟩ := ih h
      exact ⟨aside a l, rfl, rfl⟩
  | empty tag rest ih =>
      have hlast : ('<' :: tag.text ++ ['/', '>']).getLast? = some '>' := by
        rw [List.getLast?_append]
        rfl
      obtain ⟨u', rfl, h⟩ := hpart (r := rest.text) hlast (by rw [← e, text]; simp)
      obtain ⟨l, rfl, rfl⟩ := ih h
      exact ⟨empty tag l, rfl, by simp [text]⟩
  | element tag inner space rest _ ih =>
      have hlast : ('<' :: tag.text ++ '>' :: inner.text ++ '<' :: '/' :: tag.name ++ space ++
          ['>']).getLast? = some '>' := by
        rw [List.getLast?_append]
        rfl
      obtain ⟨u', rfl, h⟩ := hpart (r := rest.text) hlast (by rw [← e, text]; simp)
      obtain ⟨l, rfl, rfl⟩ := ih h
      exact ⟨element tag inner space l, rfl, by simp [text]⟩

/-! ### Parts -/

/-- The text that a part adds to the content that follows it, which may be any other one. -/
structure Part (f : Content → Content) (t : Text) : Prop where
  text : ∀ r, (f r).text = t ++ r.text
  valid : ∀ r r', (f r).Valid → r'.Valid → (f r').Valid

theorem part_char (c : Char) : Part (char c) [c] where
  text _ := rfl
  valid _ _ h hr := ⟨h.1, hr⟩

theorem part_aside (a : Aside) : Part (aside a) a.text where
  text _ := rfl
  valid _ _ h hr := ⟨h.1, hr⟩

theorem part_empty (tag : Tag) : Part (empty tag) ('<' :: tag.text ++ ['/', '>']) where
  text r := by simp [text]
  valid _ _ h hr := ⟨h.1, hr⟩

theorem part_element (tag : Tag) (inner : Content) (space : Text) : Part (element tag inner space)
    ('<' :: tag.text ++ '>' :: inner.text ++ ('<' :: '/' :: tag.name ++ space ++ ['>'])) where
  text r := by simp [text]
  valid _ _ h hr := ⟨h.1, h.2.1, h.2.2.1, hr⟩

/-! ### Elements -/

/-- All elements in a content, each with its start tag and its content. -/
def elements : Content → List (Tag × Content)
  | done => []
  | char _ rest => rest.elements
  | aside _ rest => rest.elements
  | empty tag rest => (tag, done) :: rest.elements
  | element tag inner _ rest => (tag, inner) :: (inner.elements ++ rest.elements)

@[simp] theorem elements_append (k l : Content) :
    (k.append l).elements = k.elements ++ l.elements := by
  induction k with
  | done => rfl
  | char c rest ih => simp [append, elements, ih]
  | aside a rest ih => simp [append, elements, ih]
  | empty tag rest ih => simp [append, elements, ih]
  | element tag inner space rest _ ih => simp [append, elements, ih]

@[simp] theorem elements_ofText (t : Text) : (ofText t).elements = [] := by
  induction t with
  | nil => rfl
  | cons c t ih => exact ih

/-- The elements in a content that are in no other element of it. -/
def children : Content → List (Tag × Content)
  | done => []
  | char _ rest => rest.children
  | aside _ rest => rest.children
  | empty tag rest => (tag, done) :: rest.children
  | element tag inner _ rest => (tag, inner) :: rest.children

@[simp] theorem children_append (k l : Content) :
    (k.append l).children = k.children ++ l.children := by
  induction k with
  | done => rfl
  | char c rest ih => simp [append, children, ih]
  | aside a rest ih => simp [append, children, ih]
  | empty tag rest ih => simp [append, children, ih]
  | element tag inner space rest _ ih => simp [append, children, ih]

@[simp] theorem children_ofText (t : Text) : (ofText t).children = [] := by
  induction t with
  | nil => rfl
  | cons c t ih => exact ih

end Content

end Graft.Markup
