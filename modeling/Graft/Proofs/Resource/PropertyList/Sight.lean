import Graft.Proofs.Resource.Document
import Graft.Proofs.Resource.PropertyList.Held

/-! # What the pattern sees of a dictionary

The pattern finds a key with a string right behind it, in the dictionary as well as in what its values
hold.  Scanning a plain content finds what is seen first, and writing to it gives the content another
reading (`exists_scan`). -/

namespace Graft.PropertyList

open Markup (Attribute Tag Aside Content Tagless Form)

variable {k r r' inner inner' : Content} {n v a a' t t' : Text} {p : Option Text} {tag : Tag}

def keyName : Text := ['k', 'e', 'y']

def stringName : Text := ['s', 't', 'r', 'i', 'n', 'g']

/-- Where the pattern sees a key with a string: among the elements of a content, or in one of them. -/
inductive Sighting where
  | here
  | nested
  deriving DecidableEq, Repr

/-- The key that waits for a value behind an element. -/
def keyOf (tag : Tag) (inner : Content) : Option Text :=
  if tag.name = keyName then some inner.text else none

/-- Where the pattern sees a key first, behind another key that waits. -/
def sighting? (n : Text) : Option Text → Content → Option Sighting
  | _, .done => none
  | p, .char _ rest => sighting? n p rest
  | p, .aside _ rest => sighting? n p rest
  | _, .empty _ rest => sighting? n none rest
  | p, .element tag inner _ rest =>
    if p = some n ∧ tag.name = stringName then some .here
    else ((sighting? n none inner).map fun _ => .nested).or (sighting? n (keyOf tag inner) rest)

/-- The element holds characters only, and its tags have nothing but the name. -/
@[mk_iff]
structure PlainText (tag : Tag) (inner : Content) (space : Text) : Prop where
  attributes : tag.attributes = []
  tagSpace : tag.space = []
  space : space = []
  bare : '<' ∉ inner.text

/-- A key with no white space around it. -/
@[mk_iff]
structure PlainKey (inner : Content) : Prop where
  ne : inner.text ≠ []
  trim : inner.text.trim = inner.text

/-- A content in which the pattern does not lose its way: keys and strings hold characters only, between
a key and its value there is only white space, and no aside looks like a key or a string. -/
def Plain : Option Text → Content → Prop
  | _, .done => True
  | p, .char c rest => (p.isSome → Graft.isBlank c) ∧ Plain p rest
  | p, .aside a rest => p = none ∧ Inert a.text ∧ Plain p rest
  | _, .empty tag rest => tag.name ≠ keyName ∧ Plain none rest
  | p, .element tag inner space rest =>
    (if tag.name = keyName then p = none ∧ PlainText tag inner space ∧ PlainKey inner
      else if tag.name = stringName then PlainText tag inner space
      else Plain none inner) ∧ Plain (keyOf tag inner) rest

instance (tag : Tag) (inner : Content) (space : Text) : Decidable (PlainText tag inner space) :=
  decidable_of_iff' _ (plainText_iff tag inner space)

instance (inner : Content) : Decidable (PlainKey inner) := decidable_of_iff' _ (plainKey_iff inner)

instance decidablePlain : (p : Option Text) → (k : Content) → Decidable (Plain p k)
  | _, .done => isTrue trivial
  | p, .char _ rest =>
    have := decidablePlain p rest
    inferInstanceAs (Decidable (_ ∧ _))
  | p, .aside _ rest =>
    have := decidablePlain p rest
    inferInstanceAs (Decidable (_ ∧ _ ∧ _))
  | _, .empty _ rest =>
    have := decidablePlain none rest
    inferInstanceAs (Decidable (_ ∧ _))
  | p, .element tag inner space rest =>
    have := decidablePlain none inner
    have := decidablePlain (keyOf tag inner) rest
    inferInstanceAs (Decidable ((if tag.name = keyName then
        p = none ∧ PlainText tag inner space ∧ PlainKey inner
      else if tag.name = stringName then PlainText tag inner space
      else Plain none inner) ∧ Plain (keyOf tag inner) rest))

/-! ### Writing to a content -/

/-- The tag of a string. -/
def stringTag : Tag := ⟨stringName, [], []⟩

/-- The tag of a key. -/
def keyTag : Tag := ⟨keyName, [], []⟩

/-- The first key of a name has got the value, or what one of the elements holds has changed. -/
inductive Rewritten (n v : Text) :
    Option Text → Sighting → List (Tag × Content) → List (Tag × Content) → Prop where
  | here (c : Content) (cs : List (Tag × Content)) :
      Rewritten n v (some n) .here ((stringTag, c) :: cs) ((stringTag, .ofText v) :: cs)
  | nested (p : Option Text) (tag : Tag) (c c' : Content) (cs : List (Tag × Content)) :
      tag.name ≠ stringName → Rewritten n v p .nested ((tag, c) :: cs) ((tag, c') :: cs)
  | cons (p : Option Text) (q : Sighting) (tag : Tag) (c : Content) (cs cs' : List (Tag × Content)) :
      Rewritten n v (keyOf tag c) q cs cs' → Rewritten n v p q ((tag, c) :: cs) ((tag, c) :: cs')

variable {q : Sighting} {s s' : Option Sighting} {o : Option Text} {cs cs' : List (Tag × Content)}

/-- What writing to the first string of a name makes of a content, given where it is seen. -/
def Writes (n v : Text) (p : Option Text) (k : Content) (s : Option Sighting) (o : Option Text) : Prop :=
  match s with
  | none => o = none
  | some q => ∃ k' : Content, o = some k'.text ∧ k'.Valid ∧
      Rewritten n v p q k.children k'.children ∧ (k'.children = k.children → k' = k)

/-- The content is scanned behind a key that may wait, and the first string of a name is found where it
is seen. -/
def Scans (n v : Text) (p : Option Text) (a : Text) (k : Content) (s : Option Sighting) : Prop :=
  ∃ p' a' o, Held p' a' ∧ form.Scan n v a k.text a' o ∧ Writes n v p k s o

/-- The first part of a content, with the elements in it. -/
structure Part (f : Content → Content) (t : Text) (ds : List (Tag × Content)) : Prop
    extends Content.Part f t where
  children : ∀ r, (f r).children = ds ++ r.children

variable {f f' : Content → Content} {ds : List (Tag × Content)} {p' : Option Text}

/-- A part in which the key is not seen. -/
theorem Scans.pass (hpart : Part f t ds) (hvalid : (f r).Valid)
    (hlift : ∀ q cs cs', Rewritten n v p' q cs cs' → Rewritten n v p q (ds ++ cs) (ds ++ cs'))
    (ht : form.Scan n v a t a' none) (h : Scans n v p' a' r s) : Scans n v p a (f r) s := by
  obtain ⟨pb, b, o, hb, hscan, hwrites⟩ := h
  refine ⟨pb, b, o.map (t ++ ·), hb, by rw [hpart.text]; exact ht.trans hscan, ?_⟩
  cases s with
  | none =>
      obtain rfl : o = none := hwrites
      rfl
  | some q =>
      obtain ⟨r', rfl, hr', hrewritten, hinj⟩ := hwrites
      refine ⟨f r', ?_, hpart.valid r r' hvalid hr', ?_, fun h => ?_⟩
      · rw [hpart.text, Option.map_some]
      · rw [hpart.children, hpart.children]
        exact hlift q _ _ hrewritten
      · rw [hpart.children, hpart.children] at h
        rw [hinj (List.append_cancel_left h)]

/-- A part in which the key is seen. -/
theorem Scans.stop (hpart : Part f t ds) (hpart' : Part f' t' cs') (hvalid : (f' r).Valid)
    (hrewritten : Rewritten n v p q (ds ++ r.children) (cs' ++ r.children))
    (hinj : cs' = ds → f' r = f r) (ht : form.Scan n v a t a' (some t')) (h : Scans n v p' a' r s) :
    Scans n v p a (f r) (some q) := by
  obtain ⟨pb, b, o, hb, hscan, -⟩ := h
  refine ⟨pb, b, some (f' r).text, hb, ?_, f' r, rfl, hvalid, ?_, fun h => hinj ?_⟩
  · rw [hpart.text, hpart'.text]
    exact ht.trans hscan
  · rw [hpart.children, hpart'.children]
    exact hrewritten
  · rw [hpart.children, hpart'.children] at h
    exact List.append_cancel_right h

/-! ### The parts of a content -/

variable {space : Text} {x : Text}

theorem part_char (c : Char) : Part (.char c) [c] [] := ⟨Content.part_char c, fun _ => rfl⟩

theorem part_aside (b : Aside) : Part (.aside b) b.text [] := ⟨Content.part_aside b, fun _ => rfl⟩

theorem part_empty (tag : Tag) : Part (.empty tag) ('<' :: tag.text ++ ['/', '>']) [(tag, .done)] :=
  ⟨Content.part_empty tag, fun _ => rfl⟩

theorem part_element (tag : Tag) (inner : Content) (space : Text) :
    Part (.element tag inner space)
      ('<' :: tag.text ++ '>' :: inner.text ++ ('<' :: '/' :: tag.name ++ space ++ ['>']))
      [(tag, inner)] :=
  ⟨Content.part_element tag inner space, fun _ => rfl⟩

/-- A tag that looks like the start of a name's element has nothing but the name. -/
theorem not_prefix_tag (htag : tag.Valid) (hx : Markup.EndsTag x) {w : Text} (hw : Tag.Valid ⟨w, [], []⟩)
    (hne : tag.name ≠ w ∨ x.head? ≠ some '>') : ¬('<' :: (w ++ ['>'])) <+: '<' :: (tag.text ++ x) := by
  rintro ⟨y, hy⟩
  have e : tag.text ++ x = (⟨w, [], []⟩ : Tag).text ++ '>' :: y := by
    rw [← (List.cons.inj hy).2]
    simp [Tag.text]
  obtain ⟨rfl, rfl⟩ := Tag.text_inj htag hw hx ⟨'>', y, rfl, .inl rfl⟩ e
  obtain h | h := hne
  · exact h rfl
  · exact h rfl

theorem valid_keyTag : keyTag.Valid := by decide

theorem valid_stringTag : stringTag.Valid := by decide

/-- A tag keeps quiet what follows it, unless it is the start of a key or of a string. -/
theorem Held.append_tag (ha : Held p a) (htag : tag.Valid) (hx : Markup.EndsTag x)
    (hbare : '<' ∉ x) (hlast : x.getLast? = some '>') (hkey : tag.name ≠ keyName ∨ x.head? ≠ some '>')
    (hstring : tag.name ≠ stringName ∨ x.head? ≠ some '>') :
    form.Sealed (a ++ '<' :: (tag.text ++ x)) := by
  have hinert : Inert ('<' :: (tag.text ++ x)) := by
    refine inert_bracket ?_ (not_prefix_tag htag hx valid_keyTag hkey)
      (not_prefix_tag htag hx valid_stringTag hstring)
    rw [List.mem_append, not_or]
    exact ⟨htag.bare_text, hbare⟩
  have hend : ('<' :: (tag.text ++ x)).getLast? = some '>' := by
    rw [← List.cons_append, List.getLast?_append, hlast]
    rfl
  refine ha.append (hinert.sealed hend) (by decide) fun g => ?_
  obtain ⟨c, y, rfl, hc⟩ := hx
  rw [List.cons_append, List.append_assoc]
  exact not_prefix_tag htag ⟨c, y ++ g, rfl, hc⟩ valid_stringTag hstring

/-- So does an end tag. -/
theorem Held.append_endTag (ha : Held p a) (htag : tag.Valid) (hs : space.all Markup.isSpace) :
    form.Sealed (a ++ ('<' :: '/' :: tag.name ++ space ++ ['>'])) := by
  have hno : ∀ t, ¬stringStart <+: '<' :: '/' :: t := fun t h =>
    absurd (List.cons_prefix_cons.mp (List.cons_prefix_cons.mp h).2).1 (by decide)
  have hinert : Inert ('<' :: '/' :: tag.name ++ space ++ ['>']) := by
    refine inert_bracket ?_ (fun h => ?_) (hno _)
    · have hname : '<' ∉ tag.name := Markup.notMem_of_all htag.name (by decide)
      have hspace : '<' ∉ space := Markup.notMem_of_all hs (by decide)
      simp [hname, hspace]
    · exact absurd (List.cons_prefix_cons.mp (List.cons_prefix_cons.mp h).2).1 (by decide)
  exact ha.append (hinert.sealed (by rw [List.getLast?_append]; rfl)) (by decide) fun g => hno _

theorem Held.sealed_of_none (h : Held none a) : form.Sealed a := by
  cases h with
  | sealed _ ha => exact ha

theorem Scans.char {c : Char} (hk : (Content.char c r).Valid) (hc : p.isSome → Graft.isBlank c)
    (ha : Held p a) (h : ∀ a', Held p a' → Scans n v p a' r s) : Scans n v p a (.char c r) s := by
  refine Scans.pass (part_char c) hk (fun _ _ _ h => h) (Markup.Form.scan_pass n v a [c]) (h _ ?_)
  cases ha with
  | sealed _ ha => exact .sealed _ (ha.append (sealed_char hk.1))
  | key b k w hb hne htrim hk hw =>
      have hblank : Text.isBlank (w ++ [c]) := Text.isBlank_append.mpr ⟨hw, by simpa [Text.isBlank] using hc rfl⟩
      have e : b ++ keyText k w ++ [c] = b ++ keyText k (w ++ [c]) := by simp [keyText]
      rw [e]
      exact .key b k _ hb hne htrim hk hblank

theorem Scans.aside {b : Aside} (hk : (Content.aside b r).Valid) (hb : Inert b.text)
    (ha : Held none a) (h : ∀ a', Held none a' → Scans n v none a' r s) :
    Scans n v none a (.aside b r) s :=
  Scans.pass (part_aside b) hk (fun _ _ _ h => h) (Markup.Form.scan_pass n v a b.text)
    (h _ (.sealed _ (ha.sealed_of_none.append (hb.sealed b.getLast?_text))))

theorem Scans.empty (hk : (Content.empty tag r).Valid) (hname : tag.name ≠ keyName) (ha : Held p a)
    (h : ∀ a', Held none a' → Scans n v none a' r s) : Scans n v p a (.empty tag r) s := by
  have hsealed : form.Sealed (a ++ ('<' :: tag.text ++ ['/', '>'])) :=
    ha.append_tag hk.1 ⟨'/', ['>'], rfl, .inr rfl⟩ (by decide) rfl (.inl hname) (.inr (by decide))
  have hkey : keyOf tag .done = none := if_neg hname
  exact Scans.pass (part_empty tag) hk (fun q cs cs' h => .cons p q tag .done cs cs' (by rwa [hkey]))
    (Markup.Form.scan_pass n v a _) (h _ (.sealed _ hsealed))

theorem text_keyTag (inner : Content) :
    '<' :: keyTag.text ++ '>' :: inner.text ++ ('<' :: '/' :: keyTag.name ++ [] ++ ['>']) =
      keyText inner.text [] := by
  simp [keyTag, Tag.text, keyText, keyStart, keyEnd, keyName]

theorem text_stringTag (inner : Content) :
    '<' :: stringTag.text ++ '>' :: inner.text ++ ('<' :: '/' :: stringTag.name ++ [] ++ ['>']) =
      stringStart ++ inner.text ++ stringEnd := by
  simp [stringTag, Tag.text, stringStart, stringEnd, stringName]

theorem Scans.key (hk : (Content.element keyTag inner [] r).Valid) (hkey : PlainKey inner)
    (hbare : '<' ∉ inner.text) (ha : Held none a)
    (h : ∀ a', Held (some inner.text) a' → Scans n v (some inner.text) a' r s) :
    Scans n v none a (.element keyTag inner [] r) s := by
  have hpart := part_element keyTag inner []
  rw [text_keyTag] at hpart
  exact Scans.pass hpart hk (fun q cs cs' h => .cons none q keyTag inner cs cs' h)
    (Markup.Form.scan_pass n v a _)
    (h _ (.key a _ _ ha.sealed_of_none hkey.ne hkey.trim hbare rfl))

theorem Scans.string (hk : (Content.element stringTag inner [] r).Valid) (hbare : '<' ∉ inner.text)
    (hv : Tagless v) (ha : Held p a) (h : ∀ a', Held none a' → Scans n v none a' r s) :
    Scans n v p a (.element stringTag inner [] r) (if p = some n then some .here else s) := by
  have hpart := fun inner => part_element stringTag inner []
  simp only [text_stringTag] at hpart
  have hlift : ∀ q cs cs', Rewritten n v none q cs cs' →
      Rewritten n v p q ((stringTag, inner) :: cs) ((stringTag, inner) :: cs') :=
    fun q cs cs' h => .cons p q stringTag inner cs cs' h
  cases ha with
  | sealed _ ha =>
      rw [if_neg nofun]
      exact Scans.pass (hpart inner) hk hlift (Markup.Form.scan_pass n v a _)
        (h _ (.sealed _ (ha.append (sealed_string hbare))))
  | key b k w hb hne htrim hkbare hw =>
      -- with the key that waits the string makes a pair
      have hgood : form.Good ⟨k, w, inner.text⟩ := ⟨⟨hne, hkbare, hw⟩, hbare⟩
      have htext : ∀ t, b ++ keyText k w ++ (stringStart ++ t ++ stringEnd) =
          b ++ form.text ⟨k, w, t⟩ := fun t => by
        simp [form, Pair.text, Pair.head, keyText]
      have hscan := Markup.Form.scan_open n v hb.quiet hgood (htext inner.text) (htext v)
      have hname : form.name ⟨k, w, inner.text⟩ = k := htrim
      rw [hname] at hscan
      have hrest := h [] (.sealed _ Markup.Form.sealed_nil)
      simp only [Option.some.injEq]
      split at hscan
      · next hn =>
          rw [if_pos hn]
          have hwritten := hpart (.ofText v)
          rw [Content.text_ofText] at hwritten
          refine Scans.stop (hpart inner) hwritten ⟨hk.1, Content.valid_ofText hv.1, rfl, hk.2.2.2⟩ ?_
            (fun h => ?_) hscan hrest
          · rw [hn]
            exact .here inner r.children
          · rw [(Prod.mk.inj (List.cons.inj h).1).2]
      · next hn =>
          rw [if_neg hn]
          exact Scans.pass (hpart inner) hk hlift hscan hrest

theorem Scans.element (hk : (Content.element tag inner space r).Valid) (hkey : tag.name ≠ keyName)
    (hstring : tag.name ≠ stringName) (ha : Held p a)
    (hinner : ∀ a', Held none a' → Scans n v none a' inner s)
    (h : ∀ a', Held none a' → Scans n v none a' r s') :
    Scans n v p a (.element tag inner space r) ((s.map fun _ => .nested).or s') := by
  have hpart := fun inner => part_element tag inner space
  have hopen : form.Sealed (a ++ ('<' :: tag.text ++ ['>'])) :=
    ha.append_tag hk.1 ⟨'>', [], rfl, .inl rfl⟩ (by decide) rfl (.inl hkey) (.inl hstring)
  -- no key waits behind the start tag, and the end tag takes up one that does
  obtain ⟨p', a', o, ha', hscan, hwrites⟩ := hinner _ (.sealed _ hopen)
  have hscan' := ((Markup.Form.scan_pass n v a _).trans hscan).trans
    (Markup.Form.scan_pass n v a' ('<' :: '/' :: tag.name ++ space ++ ['>']))
  have hrest := h _ (.sealed _ (ha'.append_endTag hk.1 hk.2.2.1))
  cases s with
  | none =>
      obtain rfl : o = none := hwrites
      have hnone : keyOf tag inner = none := if_neg hkey
      exact Scans.pass (hpart inner) hk (fun q cs cs' h => .cons p q tag inner cs cs' (by rwa [hnone]))
        (by simpa [Markup.Form.written] using hscan') hrest
  | some q =>
      obtain ⟨inner', rfl, hinner', -, -⟩ := hwrites
      refine Scans.stop (hpart inner) (hpart inner') ⟨hk.1, hinner', hk.2.2⟩
        (.nested p tag inner inner' r.children hstring) (fun h => ?_)
        (by simpa [Markup.Form.written] using hscan') hrest
      rw [(Prod.mk.inj (List.cons.inj h).1).2]

theorem sighting?_ofText (n t : Text) : sighting? n p (.ofText t) = none := by
  induction t with
  | nil => rfl
  | cons c t ih => exact ih

theorem PlainText.tag_eq (h : PlainText tag inner space) {w : Text} (hname : tag.name = w) :
    tag = ⟨w, [], []⟩ := by
  obtain ⟨name, attributes, tagSpace⟩ := tag
  obtain rfl : attributes = [] := h.attributes
  obtain rfl : tagSpace = [] := h.tagSpace
  obtain rfl : name = w := hname
  rfl

theorem PlainText.sighting?_eq (h : PlainText tag inner space) (n : Text) :
    sighting? n none inner = none := by
  rw [Content.eq_ofText h.bare rfl]
  exact sighting?_ofText n _

/-- A plain content is scanned, and what is found of a name is what is seen first. -/
theorem exists_scan (hk : k.Valid) (hp : Plain p k) (hv : Tagless v) (n a : Text) (ha : Held p a) :
    Scans n v p a k (sighting? n p k) := by
  induction k generalizing p a with
  | done =>
      refine ⟨p, a ++ [], none, ?_, Markup.Form.scan_pass n v a [], rfl⟩
      rwa [List.append_nil]
  | char c rest ih => exact Scans.char hk hp.1 ha (ih hk.2 hp.2)
  | aside b rest ih =>
      obtain ⟨rfl, hb, hrest⟩ := hp
      exact Scans.aside hk hb ha (ih hk.2 hrest)
  | empty tag rest ih => exact Scans.empty hk hp.1 ha (ih hk.2 hp.2)
  | element tag inner space rest ihinner ih =>
      obtain ⟨hinner, hrest⟩ := hp
      have ih := ih hk.2.2.2 hrest
      unfold sighting?
      split at hinner
      · next hkey =>
          obtain ⟨rfl, htext, hplain⟩ := hinner
          obtain rfl : tag = keyTag := htext.tag_eq hkey
          obtain rfl := htext.space
          rw [if_neg (fun h => nomatch h.1), htext.sighting?_eq, Option.map_none, Option.none_or]
          exact Scans.key hk hplain htext.bare ha ih
      · next hkey =>
          have hnone : keyOf tag inner = none := if_neg hkey
          rw [hnone] at ih ⊢
          split at hinner
          · next hstring =>
              obtain rfl : tag = stringTag := hinner.tag_eq hstring
              obtain rfl := hinner.space
              rw [hinner.sighting?_eq, Option.map_none, Option.none_or]
              simp only [and_iff_left hstring]
              exact Scans.string hk hinner.bare hv ha ih
          · next hstring =>
              rw [if_neg (fun h => hstring h.2)]
              exact Scans.element hk hkey hstring ha (ihinner hk.2.1 hinner) ih

end Graft.PropertyList
