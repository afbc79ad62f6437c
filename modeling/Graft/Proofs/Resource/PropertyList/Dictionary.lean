import Graft.Proofs.Resource.PropertyList.Sight

/-! # The dictionary of a property list

A property list is a document whose root holds one dictionary.  Writing an entry gives the dictionary one
key of its name with the value as a string, and leaves all else in it alone, if a key of that name in the
dictionary is the first one that the pattern sees, or if there is none and the pattern sees none in what
the dictionary holds; a key of a nested dictionary and a value that is no string lead astray
(`children_putAll_iff`). -/

namespace Graft.PropertyList

open Markup (Tag Content Document Tagless escape)

variable {k l : Content} {n v : Text} {e : ResourceEntry} {q : Sighting} {p : Option Text}
  {d : Tag × Content} {ds ds' : List (Tag × Content)}

/-! ### Elements of a dictionary -/

/-- The element is a key of a name. -/
def IsKey (n : Text) (d : Tag × Content) : Prop := d.1.name = keyName ∧ d.2.text = n

instance (n : Text) (d : Tag × Content) : Decidable (IsKey n d) := inferInstanceAs (Decidable (_ ∧ _))

/-- The elements of a dictionary with the value of the first key of a name replaced by a string, or with
key and string added. -/
def upsert (n v : Text) : List (Tag × Content) → List (Tag × Content)
  | [] => [(keyTag, .ofText n), (stringTag, .ofText v)]
  | d :: ds => if IsKey n d then d :: (stringTag, .ofText v) :: ds.tail else d :: upsert n v ds

theorem keyOf_eq_some_iff {tag : Tag} {c : Content} :
    keyOf tag c = some n ↔ IsKey n (tag, c) := by
  unfold keyOf IsKey
  split
  · next h => simp [h]
  · next h => simp [h]

theorem upsert_of_absent (h : ∀ d ∈ ds, ¬IsKey n d) (v : Text) :
    upsert n v ds = ds ++ [(keyTag, .ofText n), (stringTag, .ofText v)] := by
  induction ds with
  | nil => rfl
  | cons d ds ih =>
      obtain ⟨hd, hds⟩ := List.forall_mem_cons.mp h
      rw [upsert, if_neg hd, ih hds, List.cons_append]

theorem length_upsert_le (h : ∃ d ∈ ds, IsKey n d) (v : Text) :
    (upsert n v ds).length ≤ ds.length + 1 := by
  induction ds with
  | nil => simp at h
  | cons d ds ih =>
      rw [upsert]
      split
      · simp only [List.length_cons, List.length_tail]
        omega
      · next hd =>
          obtain ⟨d', hd', hkey⟩ := h
          obtain rfl | hd' := List.mem_cons.mp hd'
          · exact absurd hkey hd
          · exact Nat.succ_le_succ (ih ⟨d', hd', hkey⟩)

theorem Rewritten.exists_key (h : Rewritten n v p q ds ds') (hq : q = .here) :
    p = some n ∨ ∃ d ∈ ds, IsKey n d := by
  induction h with
  | here => exact .inl rfl
  | nested => exact nomatch hq
  | cons p q tag c ds ds' _ ih =>
      obtain hkey | ⟨d, hd, hkey⟩ := ih hq
      · exact .inr ⟨(tag, c), List.mem_cons_self .., keyOf_eq_some_iff.mp hkey⟩
      · exact .inr ⟨d, List.mem_cons_of_mem _ hd, hkey⟩

/-- A key that is seen among the elements of a dictionary gets the value. -/
theorem Rewritten.eq_upsert (h : Rewritten n v p q ds ds') (hq : q = .here) :
    (p ≠ some n → (ds.filter fun d => IsKey n d).length ≤ 1 → ds' = upsert n v ds) ∧
      (p = some n → (∀ d ∈ ds, ¬IsKey n d) → ds' = (stringTag, .ofText v) :: ds.tail) := by
  induction h with
  | here c ds => exact ⟨fun h => absurd rfl h, fun _ _ => rfl⟩
  | nested => exact nomatch hq
  | cons p q tag c ds ds' h ih =>
      obtain ⟨ih, ihkey⟩ := ih hq
      constructor
      · intro _ hone
        rw [upsert]
        split
        · next hkey =>
            rw [List.filter_cons_of_pos (by simpa using hkey), List.length_cons] at hone
            have hnil := List.eq_nil_of_length_eq_zero (Nat.le_zero.mp (Nat.le_of_succ_le_succ hone))
            rw [ihkey (keyOf_eq_some_iff.mpr hkey) (by simpa using List.filter_eq_nil_iff.mp hnil)]
        · next hkey =>
            rw [List.filter_cons_of_neg (by simpa using hkey)] at hone
            rw [ih (mt keyOf_eq_some_iff.mp hkey) hone]
      · intro _ hno
        obtain ⟨hd, hds⟩ := List.forall_mem_cons.mp hno
        obtain hkey | ⟨d, hd', hkey⟩ := h.exists_key hq
        · exact absurd (keyOf_eq_some_iff.mp hkey) hd
        · exact absurd hkey (hds d hd')

/-- A change in what an element holds is not what the value of a key needs. -/
theorem Rewritten.eq_of_nested (h : Rewritten n v p q ds ds') (hq : q = .nested) :
    (ds' = upsert n v ds → ds' = ds) ∧ (ds' = (stringTag, .ofText v) :: ds.tail → ds' = ds) := by
  induction h with
  | here => exact nomatch hq
  | nested p tag c c' ds hstring =>
      constructor
      · intro e
        have hhead : (tag, c') = (tag, c) := by
          rw [upsert] at e
          split at e
          · exact (List.cons.inj e).1
          · exact (List.cons.inj e).1
        rw [hhead]
      · intro e
        refine absurd ?_ hstring
        rw [(Prod.mk.inj (List.cons.inj e).1).1]
        rfl
  | cons p q tag c ds ds' h ih =>
      obtain ⟨ih, ihkey⟩ := ih hq
      constructor
      · intro e
        rw [upsert] at e
        split at e
        · rw [ihkey (List.cons.inj e).2]
        · rw [ih (List.cons.inj e).2]
      · intro e
        rw [(List.cons.inj e).2]
        rfl

/-! ### Documents -/

theorem closingTag_eq : closingTag = '<' :: ['/', 'd', 'i', 'c', 't', '>'] := rfl

/-- A document with one dictionary, around which there are white space and asides only. -/
structure Plist where
  prolog : Content
  root : Tag
  dict : Document
  space : Text
  epilog : Content
  deriving DecidableEq, Repr

namespace Plist

variable {d : Plist}

def document (d : Plist) : Document := ⟨d.prolog, d.root, d.dict.reading, d.space, d.epilog⟩

def text (d : Plist) : Text := d.document.text

/-- The elements of the dictionary. -/
def children (d : Plist) : List (Tag × Content) := d.dict.content.children

def front (d : Plist) : Text := d.prolog.text ++ '<' :: d.root.text ++ '>' :: d.dict.front

def back (d : Plist) : Text :=
  d.dict.epilog.text ++ ('<' :: '/' :: d.root.name ++ d.space ++ ['>']) ++ d.epilog.text

structure Valid (d : Plist) : Prop where
  document : d.document.Valid
  prolog : d.dict.prolog.IsMisc
  epilog : d.dict.epilog.IsMisc
  dict : d.dict.root.name = ['d', 'i', 'c', 't']

instance (d : Plist) : Decidable d.Valid :=
  decidable_of_iff (d.document.Valid ∧ d.dict.prolog.IsMisc ∧ d.dict.epilog.IsMisc ∧
      d.dict.root.name = ['d', 'i', 'c', 't'])
    ⟨fun h => ⟨h.1, h.2.1, h.2.2.1, h.2.2.2⟩, fun h => ⟨h.document, h.prolog, h.epilog, h.dict⟩⟩

/-- A text is that of at most one property list. -/
theorem text_inj {d' : Plist} (h : d.Valid) (h' : d'.Valid) (e : d.text = d'.text) : d = d' := by
  have hdocument := Document.text_inj h.document h'.document e
  obtain ⟨hprolog, hroot, hdict, hspace, hepilog⟩ := Document.mk.inj hdocument
  obtain ⟨hprolog', hroot', hcontent', hspace', hepilog'⟩ :=
    Content.append_element_inj h.prolog h'.prolog hdict
  obtain ⟨prolog, root, ⟨dprolog, droot, dcontent, dspace, depilog⟩, space, epilog⟩ := d
  obtain ⟨prolog', root', ⟨dprolog', droot', dcontent', dspace', depilog'⟩, space', epilog'⟩ := d'
  simp only at hprolog hroot hspace hepilog hprolog' hroot' hcontent' hspace' hepilog'
  rw [hprolog, hroot, hspace, hepilog, hprolog', hroot', hcontent', hspace', hepilog']

/-- The property list with another content of the dictionary. -/
def withContent (d : Plist) (k : Content) : Plist := { d with dict := { d.dict with content := k } }

/-- The end of the dictionary is written as in the pattern, no other one comes behind it, and the pattern
does not lose its way. -/
structure Plain (d : Plist) : Prop where
  valid : d.Valid
  space : d.dict.space = []
  front : Inert d.front
  content : PropertyList.Plain none d.dict.content
  back : Inert d.back
  last : ¬closingTag <:+: d.back

theorem Plain.text_eq (h : d.Plain) (k : Content) :
    (d.withContent k).text = d.front ++ k.text ++ closingTag ++ d.back := by
  have hclosing : closingTag = '<' :: '/' :: d.dict.root.name ++ d.dict.space ++ ['>'] := by
    rw [h.valid.dict, h.space]
    rfl
  unfold text
  rw [Document.text_eq, hclosing]
  simp [withContent, document, Plist.front, Plist.back, Document.front, Document.reading, Content.text]

theorem Valid.withContent (h : d.Valid) (hk : k.Valid) : (d.withContent k).Valid := by
  obtain ⟨h1, h2, h3, h4, h5, h6, h7⟩ := Document.valid_iff.mp h.document
  obtain ⟨hprolog, hroot, -, hspace, hepilog⟩ := Content.valid_append.mp h3
  have hdict : (d.withContent k).dict.reading.Valid :=
    Content.valid_append.mpr ⟨hprolog, hroot, hk, hspace, hepilog⟩
  exact ⟨Document.valid_iff.mpr ⟨h1, h2, hdict, h4, h5, h6, h7⟩, h.prolog, h.epilog, h.dict⟩

theorem Valid.content (h : d.Valid) : d.dict.content.Valid := by
  obtain ⟨-, -, h3, -⟩ := Document.valid_iff.mp h.document
  obtain ⟨-, -, hk, -⟩ := Content.valid_append.mp h3
  exact hk

theorem Valid.dict_root (h : d.Valid) : d.dict.root.Valid := by
  obtain ⟨-, -, h3, -⟩ := Document.valid_iff.mp h.document
  obtain ⟨-, hroot, -⟩ := Content.valid_append.mp h3
  exact hroot

theorem getLast?_front (d : Plist) : d.front.getLast? = some '>' := by
  unfold front
  rw [List.getLast?_append, ← List.singleton_append, List.getLast?_append, d.dict.getLast?_front]
  rfl

/-- A property list is scanned, and what is found of a name is what is seen first in the dictionary. -/
theorem Plain.exists_scan (h : d.Plain) (hv : Tagless v) (n : Text) :
    ∃ a' o, Quiet a' ∧ form.Scan n v [] d.text a' (o.map (d.front ++ · ++ closingTag ++ d.back)) ∧
      Writes n v none d.dict.content (sighting? n none d.dict.content) o := by
  have hfront : form.Sealed d.front := h.front.sealed d.getLast?_front
  obtain ⟨p', a, o, ha, hscan, hwrites⟩ := PropertyList.exists_scan h.valid.content h.content hv n _
    (.sealed ([] ++ d.front) hfront)
  have hspace : d.dict.space.all Markup.isSpace := by
    rw [h.space]
    rfl
  have hend := ha.append_endTag h.valid.dict_root hspace
  have hclosing : '<' :: '/' :: d.dict.root.name ++ d.dict.space ++ ['>'] = closingTag := by
    rw [h.valid.dict, h.space]
    rfl
  rw [hclosing] at hend
  have hscan' := (((Markup.Form.scan_pass n v [] d.front).trans hscan).trans
    (Markup.Form.scan_pass n v a closingTag)).trans (Markup.Form.scan_pass n v _ d.back)
  rw [← h.text_eq d.dict.content] at hscan'
  refine ⟨_, o, hend _ h.back.quiet, ?_, hwrites⟩
  cases o with
  | none => exact hscan'
  | some t => exact hscan'

/-- Writing to a key that is seen. -/
theorem Plain.exists_put_of_sighting (h : d.Plain) (he : Named e)
    (hq : sighting? e.name none d.dict.content = some q) : ∃ k : Content, k.Valid ∧
      put d.text e = (d.withContent k).text ∧
      Rewritten e.name (escape e.value) none q d.children k.children ∧
      (k.children = d.children → k = d.dict.content) := by
  obtain ⟨a, o, ha, hscan, hwrites⟩ := h.exists_scan (Markup.tagless_escape e.value) e.name
  rw [hq] at hwrites
  obtain ⟨k, rfl, hk, hrewritten, hinj⟩ := hwrites
  exact ⟨k, hk, (writer.put_of_scan he ha hscan).trans (h.text_eq k).symm, hrewritten, hinj⟩

end Plist

/-! ### New pairs -/

/-- A new key and its string, with the white space around them. -/
def newContent (e : ResourceEntry) (w indent s : Text) : Content :=
  (Content.ofText (w ++ indent)).append (.element keyTag (.ofText e.name) []
    ((Content.ofText ('\n' :: indent)).append
      (.element stringTag (.ofText (escape e.value)) [] (.ofText ('\n' :: s)))))

theorem text_newContent (e : ResourceEntry) (w indent s : Text) : (newContent e w indent s).text =
    w ++ render indent e.name (escape e.value) ++ s := by
  rw [render_eq]
  simp [newContent, Content.text, Pair.text, Pair.head, keyTag, stringTag, Tag.text, keyName, stringName,
    keyStart, keyEnd, stringStart, stringEnd]

theorem valid_newContent (he : '<' ∉ e.name) {w indent s : Text} (hw : w.isBlank)
    (hindent : indent.isBlank) (hs : s.isBlank) : (newContent e w indent s).Valid := by
  have hblank : ∀ {t : Text}, t.isBlank → '<' ∉ t := Content.notMem_of_isBlank
  have h1 : '<' ∉ w ++ indent := by simp [hblank hw, hblank hindent]
  have h2 : '<' ∉ '\n' :: indent := by simp [hblank hindent]
  have h3 : '<' ∉ '\n' :: s := by simp [hblank hs]
  exact Content.valid_append.mpr ⟨Content.valid_ofText h1, valid_keyTag, Content.valid_ofText he, rfl,
    Content.valid_append.mpr ⟨Content.valid_ofText h2, valid_stringTag,
      Content.valid_ofText (Markup.tagless_escape e.value).1, rfl, Content.valid_ofText h3⟩⟩

theorem children_newContent (e : ResourceEntry) (w indent s : Text) :
    (newContent e w indent s).children =
      [(keyTag, .ofText e.name), (stringTag, .ofText (escape e.value))] := by
  simp [newContent, Content.children]

namespace Plist

variable {d : Plist}

/-- Writing to a key that is not seen. -/
theorem Plain.exists_put_of_unseen (h : d.Plain) (he : Named e)
    (hq : sighting? e.name none d.dict.content = none) : ∃ k : Content, k.Valid ∧
      put d.text e = (d.withContent k).text ∧
      k.children = d.children ++ [(keyTag, .ofText e.name), (stringTag, .ofText (escape e.value))] := by
  obtain ⟨a, o, ha, hscan, hwrites⟩ := h.exists_scan (Markup.tagless_escape e.value) e.name
  rw [hq] at hwrites
  obtain rfl : o = none := hwrites
  have hfind : findValue? e.name d.text = none := by
    cases hscan with
    | absent ss text fair names =>
        rw [List.nil_append] at text
        rw [text]
        exact findValue?_of_absent fair ha names
  have hput : put d.text e = Markup.insertLines d.text (Markup.closingTagPos closingTag d.text)
      (render (d.text.indentAt (Markup.closingTagPos closingTag d.text) ++ ['\t']) e.name
        (escape e.value)) := by
    unfold put
    rw [hfind]
  have hindent : Text.isBlank (d.text.indentAt (Markup.closingTagPos closingTag d.text) ++ ['\t']) :=
    Text.isBlank_append.mpr ⟨isBlank_indentAt _ _, by decide⟩
  have htext : d.text = d.front ++ d.dict.content.text ++ closingTag ++ d.back := h.text_eq d.dict.content
  generalize d.text.indentAt (Markup.closingTagPos closingTag d.text) ++ ['\t'] = indent at hput hindent
  obtain ⟨l, s, w, hcontent, hs, hw, hinsert⟩ :=
    Markup.exists_insertLines closingTag_eq (by decide) h.last d.getLast?_front d.dict.content
  have hl := h.valid.content
  rw [hcontent] at hl
  refine ⟨l.append (newContent e w indent s), Content.valid_append.mpr
    ⟨(Content.valid_append.mp hl).1, valid_newContent he.2.1 hw hindent hs⟩, ?_, ?_⟩
  · rw [hput, htext, hinsert, h.text_eq, Content.text_append, text_newContent]
    simp only [List.append_assoc]
  · unfold children
    rw [hcontent, Content.children_append, Content.children_append, children_newContent,
      Content.children_ofText, List.append_nil]

/-- Writing an entry to a property list with at most one key of its name is to write key and string to
the dictionary if and only if the pattern sees that key first, or there is no such key, neither in the
dictionary nor seen in what it holds, or a key in what it holds has the value already. -/
theorem children_putAll_iff (h : d.Plain) (he : Named e)
    (hone : (d.children.filter fun c => IsKey e.name c).length ≤ 1) :
    ∃ k : Content, (d.withContent k).Valid ∧ putAll? d.text [e] = some (d.withContent k).text ∧
      (k.children = upsert e.name (escape e.value) d.children ↔
        sighting? e.name none d.dict.content = some .here ∨
        sighting? e.name none d.dict.content = none ∧ (∀ c ∈ d.children, ¬IsKey e.name c) ∨
        sighting? e.name none d.dict.content = some .nested ∧ k = d.dict.content ∧
          upsert e.name (escape e.value) d.children = d.children) := by
  have hputAll : putAll? d.text [e] = some (put d.text e) := by
    have hend : closingTag.occursIn d.text :=
      Text.occursIn_iff.mpr ⟨d.front ++ d.dict.content.text, d.back, (h.text_eq d.dict.content).symm⟩
    rw [putAll?, if_pos hend]
    rfl
  rw [hputAll]
  cases hq : sighting? e.name none d.dict.content with
  | none =>
      obtain ⟨k, hk, hput, hchildren⟩ := h.exists_put_of_unseen he hq
      refine ⟨k, h.valid.withContent hk, congrArg some hput, ?_⟩
      rw [hchildren]
      constructor
      · intro e'
        refine .inr (.inl ⟨rfl, fun c hc hkey => ?_⟩)
        have hlen := length_upsert_le ⟨c, hc, hkey⟩ (escape e.value)
        rw [← e', List.length_append, List.length_cons, List.length_cons, List.length_nil] at hlen
        omega
      · rintro (h | ⟨-, hno⟩ | ⟨h, -⟩)
        · exact absurd h (by decide)
        · exact (upsert_of_absent hno _).symm
        · exact absurd h (by decide)
  | some q =>
      obtain ⟨k, hk, hput, hrewritten, hinj⟩ := h.exists_put_of_sighting he hq
      refine ⟨k, h.valid.withContent hk, congrArg some hput, ?_⟩
      cases q with
      | here => simp [(hrewritten.eq_upsert rfl).1 (Option.some_ne_none _).symm hone]
      | nested =>
          constructor
          · intro e'
            have hsame := (hrewritten.eq_of_nested rfl).1 e'
            exact .inr (.inr ⟨rfl, hinj hsame, by rw [← e', hsame]⟩)
          · rintro (h | ⟨h, -⟩ | ⟨-, rfl, hupsert⟩)
            · exact absurd h (by decide)
            · exact absurd h (by decide)
            · exact hupsert.symm

end Plist

/-! ### Lists with a nested dictionary -/

/-- A key and its string on two lines. -/
def pairOf (n v : Text) (rest : Content) : Content :=
  .char '\n' (.element keyTag (.ofText n) [] (.char '\n' (.element stringTag (.ofText v) [] rest)))

/-- A key and its dictionary on lines of their own. -/
def nestedOf (n : Text) (k rest : Content) : Content :=
  .char '\n' (.element keyTag (.ofText n) []
    (.char '\n' (.element ⟨['d', 'i', 'c', 't'], [], []⟩ k [] rest)))

def plistOf (k : Content) : Plist :=
  ⟨.done, ⟨"plist".toList, [⟨[' '], "version".toList, [], [], '"', "1.0".toList⟩], []⟩,
    ⟨.char '\n' .done, ⟨['d', 'i', 'c', 't'], [], []⟩, k, [], .char '\n' .done⟩, [], .char '\n' .done⟩

/-- The end of a line. -/
def lineEnd : Content := .char '\n' .done

/-- A list whose key comes before that of a nested dictionary. -/
def keyFirst : Plist :=
  plistOf (pairOf ['N'] ['x'] (nestedOf ['A'] (pairOf ['N'] ['x'] lineEnd) lineEnd))

/-- A list in which only a nested dictionary has the key. -/
def nestedFirst : Plist := plistOf (nestedOf ['A'] (pairOf ['N'] ['x'] lineEnd) lineEnd)

def newEntry : ResourceEntry := ⟨['N'], "new".toList, false⟩

namespace Plist

/-- The key of the dictionary gets the value, and the nested dictionary stays as it is. -/
theorem children_putAll_iff_keyFirst :
    keyFirst.Plain ∧ Named newEntry ∧ (keyFirst.children.filter fun c => IsKey ['N'] c).length ≤ 1 ∧
      ∃ k : Content, (keyFirst.withContent k).Valid ∧
        putAll? keyFirst.text [newEntry] = some (keyFirst.withContent k).text ∧
        k.children = upsert ['N'] "new".toList keyFirst.children := by
  have hplain : keyFirst.Plain := by
    refine ⟨by decide, rfl, by decide, by decide, by decide, ?_⟩
    rw [← Text.occursIn_iff]
    decide
  have hnamed : Named newEntry := by decide
  have hone : (keyFirst.children.filter fun c => IsKey ['N'] c).length ≤ 1 := by decide
  have hseen : sighting? ['N'] none keyFirst.dict.content = some .here := by decide
  obtain ⟨k, hk, hput, hiff⟩ := children_putAll_iff hplain hnamed hone
  exact ⟨hplain, hnamed, hone, k, hk, hput, hiff.mpr (.inl hseen)⟩

/-- The nested dictionary gets the value, and the dictionary does not get the key. -/
theorem children_putAll_nestedFirst :
    nestedFirst.Valid ∧ Named newEntry ∧ (∀ c ∈ nestedFirst.children, ¬IsKey ['N'] c) ∧
      ∃ k : Content, (nestedFirst.withContent k).Valid ∧
        putAll? nestedFirst.text [newEntry] = some (nestedFirst.withContent k).text ∧
        (∀ c ∈ k.children, ¬IsKey ['N'] c) ∧
        k = nestedOf ['A'] (pairOf ['N'] "new".toList lineEnd) lineEnd := by
  refine ⟨by decide, by decide, by decide, _, ?_, ?_, ?_, rfl⟩
  · decide
  · decide
  · decide

end Plist

end Graft.PropertyList
