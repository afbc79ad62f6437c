import Graft.Proofs.Resource.Content

/-! # Markup documents

A document is one element with white space, comments, instructions and declarations around it; its text
says what it is (`Document.text_inj`).  New lines before the last closing tag of a content come in behind
all its elements (`exists_place`). -/

namespace Graft.Markup

namespace Content

variable {k k' : Content}

/-- White space and asides that may stand outside the root of a document. -/
def IsMisc : Content → Prop
  | done => True
  | char c rest => isSpace c ∧ rest.IsMisc
  | aside a rest => a.kind ≠ .characters ∧ rest.IsMisc
  | empty .. => False
  | element .. => False

instance decidableIsMisc : (k : Content) → Decidable k.IsMisc
  | done => isTrue trivial
  | char _ rest =>
    have := decidableIsMisc rest
    inferInstanceAs (Decidable (_ ∧ _))
  | aside _ rest =>
    have := decidableIsMisc rest
    inferInstanceAs (Decidable (_ ∧ _))
  | empty .. => isFalse id
  | element .. => isFalse id

theorem IsMisc.elements_eq (h : k.IsMisc) : k.elements = [] := by
  induction k with
  | done => rfl
  | char c rest ih => exact ih h.2
  | aside a rest ih => exact ih h.2
  | empty | element => exact h.elim

theorem append_element_inj {tag tag' : Tag} {i i' r r' : Content} {s s' : Text} (h : k.IsMisc)
    (h' : k'.IsMisc) (e : k.append (element tag i s r) = k'.append (element tag' i' s' r')) :
    k = k' ∧ tag = tag' ∧ i = i' ∧ s = s' ∧ r = r' := by
  induction k generalizing k' with
  | done =>
      cases k' with
      | done =>
          obtain ⟨rfl, rfl, rfl, rfl⟩ := Content.element.inj e
          exact ⟨rfl, rfl, rfl, rfl, rfl⟩
      | char | aside => exact nomatch e
      | empty | element => exact h'.elim
  | char c rest ih =>
      cases k' with
      | char c' rest' =>
          obtain ⟨rfl, hrest⟩ := Content.char.inj e
          obtain ⟨rfl, hroot⟩ := ih h.2 h'.2 hrest
          exact ⟨rfl, hroot⟩
      | done | aside => exact nomatch e
      | empty | element => exact h'.elim
  | aside a rest ih =>
      cases k' with
      | aside a' rest' =>
          obtain ⟨rfl, hrest⟩ := Content.aside.inj e
          obtain ⟨rfl, hroot⟩ := ih h.2 h'.2 hrest
          exact ⟨rfl, hroot⟩
      | done | char => exact nomatch e
      | empty | element => exact h'.elim
  | empty | element => exact h.elim

end Content

/-- A document whose root has an end tag. -/
structure Document where
  prolog : Content
  root : Tag
  content : Content
  space : Text
  epilog : Content
  deriving DecidableEq, Repr

namespace Document

variable {d d' : Document}

/-- The document as content. -/
def reading (d : Document) : Content := d.prolog.append (.element d.root d.content d.space d.epilog)

def text (d : Document) : Text := d.reading.text

structure Valid (d : Document) : Prop where
  reading : d.reading.Valid
  prolog : d.prolog.IsMisc
  epilog : d.epilog.IsMisc

instance (d : Document) : Decidable d.Valid :=
  decidable_of_iff (d.reading.Valid ∧ d.prolog.IsMisc ∧ d.epilog.IsMisc)
    ⟨fun h => ⟨h.1, h.2.1, h.2.2⟩, fun h => ⟨h.reading, h.prolog, h.epilog⟩⟩

/-- A text is that of at most one document. -/
theorem text_inj (h : d.Valid) (h' : d'.Valid) (e : d.text = d'.text) : d = d' := by
  obtain ⟨hprolog, hroot, hcontent, hspace, hepilog⟩ :=
    Content.append_element_inj h.prolog h'.prolog (Content.text_inj h.reading h'.reading e)
  obtain ⟨prolog, root, content, space, epilog⟩ := d
  obtain ⟨prolog', root', content', space', epilog'⟩ := d'
  simp only at hprolog hroot hcontent hspace hepilog
  rw [hprolog, hroot, hcontent, hspace, hepilog]

/-- What comes before the content of the root. -/
def front (d : Document) : Text := d.prolog.text ++ '<' :: d.root.text ++ ['>']

theorem text_eq (d : Document) : d.text =
    d.front ++ d.content.text ++ ('<' :: '/' :: d.root.name ++ d.space ++ ['>']) ++ d.epilog.text := by
  simp [text, reading, front, Content.text]

theorem getLast?_front (d : Document) : d.front.getLast? = some '>' := by
  unfold front
  rw [List.getLast?_append]
  rfl

theorem valid_iff : d.Valid ↔ d.prolog.Valid ∧ d.root.Valid ∧ d.content.Valid ∧
    d.space.all isSpace ∧ d.epilog.Valid ∧ d.prolog.IsMisc ∧ d.epilog.IsMisc := by
  constructor
  · rintro ⟨hreading, hprolog, hepilog⟩
    obtain ⟨h1, h2, h3, h4, h5⟩ := Content.valid_append.mp hreading
    exact ⟨h1, h2, h3, h4, h5, hprolog, hepilog⟩
  · rintro ⟨h1, h2, h3, h4, h5, hprolog, hepilog⟩
    exact ⟨Content.valid_append.mpr ⟨h1, h2, h3, h4, h5⟩, hprolog, hepilog⟩

end Document

/-! ### New lines -/

variable {tag w front back : Text} {k : Content}

/-- A tag that does not occur behind a place is there the last time. -/
theorem last_unique {u v z : Text} (htag : tag = '<' :: w) (hw : '<' ∉ w) (hback : ¬tag <:+: back)
    (hlast : ∀ x y, tag ++ z = x ++ tag ++ y → x = []) (e : u ++ (tag ++ z) = v ++ (tag ++ back)) :
    u = v ∧ z = back := by
  obtain ⟨r, rfl, hr⟩ | ⟨r, hr0, rfl, hr⟩ := Text.append_cases e
  · obtain rfl := hlast r back (by rw [hr, List.append_assoc])
    exact ⟨(List.append_nil u).symm, List.append_cancel_left hr⟩
  · have e' : [] ++ '<' :: w ++ back = r ++ '<' :: (w ++ z) := by
      rw [htag] at hr
      exact hr
    obtain ⟨h, -⟩ | ⟨x, -, hx⟩ := Text.cases_of_word e' List.not_mem_nil hw
    · exact absurd h hr0
    · refine absurd ⟨x, z, ?_⟩ hback
      rw [htag, hx]
      simp

/-- New lines go into the content before the last closing tag, behind everything in it but white
space. -/
theorem exists_place (htag : tag = '<' :: w) (hw : '<' ∉ w) (hback : ¬tag <:+: back)
    (hfront : front.getLast? = some '>') (k : Content) :
    ∃ (l : Content) (s : Text), k = l.append (.ofText s) ∧ s.isBlank ∧
      closingTagPos tag (front ++ k.text ++ tag ++ back) = (front ++ l.text).length := by
  have hne : tag ≠ [] := by
    rw [htag]
    exact List.cons_ne_nil _ _
  obtain ⟨a, rest, hsplit, hpos, s, z, rfl, hs, -, hlast⟩ := exists_ending hne
    (show tag <:+: front ++ k.text ++ tag ++ back from ⟨front ++ k.text, back, rfl⟩)
  obtain ⟨hcut, -⟩ := last_unique (u := a ++ s) (v := front ++ k.text) htag hw hback hlast
    (by rw [← List.append_assoc, ← List.append_assoc, hsplit]; simp)
  -- the white space before the tag does not reach into what comes before the content
  obtain ⟨r, rfl, hr⟩ | ⟨r, hr0, hfr, hsr⟩ := Text.append_cases hcut.symm
  · obtain ⟨l, rfl, rfl⟩ := Content.exists_append_ofText hs hr
    exact ⟨l, s, rfl, hs, hpos⟩
  · have hmem : '>' ∈ s := by
      rw [hfr, List.getLast?_append, List.getLast?_eq_some_getLast hr0, Option.some_or] at hfront
      rw [hsr, ← Option.some.inj hfront]
      exact List.mem_append_left _ (List.getLast_mem hr0)
    exact absurd (List.all_eq_true.mp hs _ hmem) (by decide)

/-- What is left of a content, and where the new lines are in it. -/
theorem exists_insertLines (htag : tag = '<' :: w) (hw : '<' ∉ w) (hback : ¬tag <:+: back)
    (hfront : front.getLast? = some '>') (k : Content) :
    ∃ (l : Content) (s nl : Text), k = l.append (.ofText s) ∧ s.isBlank ∧ nl.isBlank ∧ ∀ new,
      insertLines (front ++ k.text ++ tag ++ back)
          (closingTagPos tag (front ++ k.text ++ tag ++ back)) new =
        front ++ (l.text ++ nl ++ new ++ s) ++ tag ++ back := by
  obtain ⟨l, s, rfl, hs, hpos⟩ := exists_place htag hw hback hfront k
  refine ⟨l, s, newline (front ++ l.text), rfl, hs, isBlank_newline _, fun new => ?_⟩
  have e : front ++ (l.append (.ofText s)).text ++ tag ++ back =
      front ++ l.text ++ (s ++ tag ++ back) := by simp
  rw [hpos, e, insertLines_append]
  simp

end Graft.Markup
