import Graft.Proofs.Resource.StringTable.Sight

/-! # The strings of a document

A well-formed document has at most one reading, and its strings are the string elements of that reading.
Writing an entry leaves one string of its name, with the value, if the string has its name in the first
place of its tag, or if no string and no comment has that name; a name in another place and a string in a
comment lead astray (`contents_putAll_iff`). -/

namespace Graft.StringTable

open Markup (Attribute Tag Aside Content Document Tagless escape)

variable {d : Document} {k l : Content} {n v : Text} {e : ResourceEntry} {q : Sighting}

/-- A table whose end is written as in the pattern, once, and in which the pattern does not lose its
way. -/
structure Table (d : Document) : Prop where
  valid : d.Valid
  root : d.root.name = ['r', 'e', 's', 'o', 'u', 'r', 'c', 'e', 's']
  space : d.space = []
  plain : Plain d.reading
  last : ¬closingTag <:+: d.epilog.text

theorem Table.root_ne (h : Table d) : d.root.name ≠ stringName := by
  rw [h.root]
  decide

theorem Table.text_eq (h : Table d) (k : Content) : ({ d with content := k } : Document).text =
    d.front ++ k.text ++ closingTag ++ d.epilog.text := by
  rw [Document.text_eq]
  simp only [h.root, h.space]
  rfl

theorem plain_append : Plain (k.append l) ↔ Plain k ∧ Plain l := by
  induction k with
  | done => simp [Content.append, Plain]
  | char c rest ih => exact ih
  | aside a rest ih => simp [Content.append, Plain, ih, and_assoc]
  | empty tag rest ih => simp [Content.append, Plain, ih, and_assoc]
  | element tag inner space rest _ ih => simp [Content.append, Plain, ih, and_assoc]

theorem sighting?_append (n : Text) (k l : Content) :
    sighting? n (k.append l) = (sighting? n k).or (sighting? n l) := by
  induction k with
  | done => rfl
  | char c rest ih => exact ih
  | aside a rest ih =>
      simp only [Content.append, sighting?, ih]
      split <;> rfl
  | empty tag rest ih =>
      simp only [Content.append, sighting?, ih]
      split <;> rfl
  | element tag inner space rest _ ih =>
      simp only [Content.append, sighting?, ih]
      split
      · rfl
      · split
        · rfl
        · rw [Option.or_assoc]

theorem contents_append (n : Text) (k l : Content) :
    contents n (k.append l) = contents n k ++ contents n l := by
  simp [contents]

theorem contents_of_isMisc (h : k.IsMisc) : contents n k = [] := by
  unfold contents
  rw [h.elements_eq]
  rfl

theorem contents_ofText (n t : Text) : contents n (.ofText t) = [] := by
  simp [contents]

theorem sighting?_reading (h : d.root.name ≠ stringName) (n : Text) : sighting? n d.reading =
    (sighting? n d.prolog).or ((sighting? n d.content).or (sighting? n d.epilog)) := by
  unfold Document.reading
  rw [sighting?_append]
  simp only [sighting?, leadsTo_of_none (leading?_of_ne h), if_neg h, Bool.false_eq_true, if_false]

theorem contents_reading (h : d.root.name ≠ stringName) (n : Text) : contents n d.reading =
    contents n d.prolog ++ (contents n d.content ++ contents n d.epilog) := by
  have hnamed : ¬IsNamed n d.root := fun hroot => h hroot.1
  unfold Document.reading
  rw [contents_append, (part_element n d.root d.content d.space).contents, if_neg hnamed,
    List.nil_append]

theorem Table.contents_eq (h : Table d) (n : Text) (k : Content) :
    contents n ({ d with content := k } : Document).reading = contents n k := by
  rw [contents_reading (d := { d with content := k }) h.root_ne]
  simp only [contents_of_isMisc h.valid.prolog, contents_of_isMisc h.valid.epilog, List.nil_append,
    List.append_nil]

/-! ### Strings that are seen -/

/-- A document is scanned, and what is found of a name is what is seen first. -/
theorem exists_scan_document (hd : d.Valid) (hroot : d.root.name ≠ stringName)
    (hp : Plain d.reading) (hv : Tagless v) (n : Text) :
    ∃ a' o, form.Sealed a' ∧ form.Scan n v [] d.text a' o ∧
      match sighting? n d.reading with
      | none => o = none
      | some q => ∃ d' : Document, d'.Valid ∧ o = some d'.text ∧
          Rewritten v q (contents n d.reading) (contents n d'.reading) := by
  obtain ⟨hprolog, htag, hcontent, hspace, hepilog, hmisc, hmisc'⟩ := Document.valid_iff.mp hd
  obtain ⟨pprolog, -, pcontent, pepilog⟩ := plain_append.mp hp
  rw [if_neg hroot] at pcontent
  obtain ⟨a1, o1, ha1, h1, w1⟩ := exists_scan hprolog pprolog hv n [] Markup.Form.sealed_nil
  obtain ⟨a2, o2, ha2, h2, w2⟩ := exists_scan hcontent pcontent hv n _
    (ha1.append (sealed_startTag htag (leading?_of_ne hroot)).1)
  obtain ⟨a3, o3, ha3, h3, w3⟩ := exists_scan hepilog pepilog hv n _
    (ha2.append (sealed_endTag htag hspace))
  have hscan := (((h1.trans (Markup.Form.scan_pass n v a1 _)).trans h2).trans
    (Markup.Form.scan_pass n v a2 _)).trans h3
  have htext : ∀ d : Document, d.text = d.prolog.text ++ ('<' :: d.root.text ++ ['>']) ++
      d.content.text ++ ('<' :: '/' :: d.root.name ++ d.space ++ ['>']) ++ d.epilog.text := fun d => by
    rw [Document.text_eq, Document.front]
    simp
  rw [← htext] at hscan
  refine ⟨a3, _, ha3, hscan, ?_⟩
  rw [sighting?_reading hroot, contents_reading hroot]
  -- the first of the three parts in which the name is seen
  cases hs1 : sighting? n d.prolog with
  | some q =>
      rw [hs1] at w1
      obtain ⟨k, rfl, hk, hmisc1, hrewritten⟩ := w1
      have hd' : Document.Valid { d with prolog := k } :=
        Document.valid_iff.mpr ⟨hk, htag, hcontent, hspace, hepilog, hmisc1 hmisc, hmisc'⟩
      refine ⟨{ d with prolog := k }, hd', ?_, ?_⟩
      · rw [htext]
        simp [Markup.Form.written]
      · rw [contents_reading (d := { d with prolog := k }) hroot]
        exact hrewritten.append_right _
  | none =>
      rw [hs1] at w1
      obtain rfl : o1 = none := w1
      cases hs2 : sighting? n d.content with
      | some q =>
          rw [hs2] at w2
          obtain ⟨k, rfl, hk, -, hrewritten⟩ := w2
          have hd' : Document.Valid { d with content := k } :=
            Document.valid_iff.mpr ⟨hprolog, htag, hk, hspace, hepilog, hmisc, hmisc'⟩
          refine ⟨{ d with content := k }, hd', ?_, ?_⟩
          · rw [htext]
            simp [Markup.Form.written]
          · rw [contents_reading (d := { d with content := k }) hroot]
            exact (hrewritten.append_right _).append_left _
      | none =>
          rw [hs2] at w2
          obtain rfl : o2 = none := w2
          cases hs3 : sighting? n d.epilog with
          | some q =>
              rw [hs3] at w3
              obtain ⟨k, rfl, hk, hmisc3, hrewritten⟩ := w3
              have hd' : Document.Valid { d with epilog := k } :=
                Document.valid_iff.mpr ⟨hprolog, htag, hcontent, hspace, hk, hmisc, hmisc3 hmisc'⟩
              refine ⟨{ d with epilog := k }, hd', ?_, ?_⟩
              · rw [htext]
                simp [Markup.Form.written]
              · rw [contents_reading (d := { d with epilog := k }) hroot]
                exact (hrewritten.append_left _).append_left _
          | none =>
              rw [hs3] at w3
              obtain rfl : o3 = none := w3
              rfl

/-- Writing to a string that is seen. -/
theorem exists_put_of_sighting (h : Table d) (he : Named e)
    (hq : sighting? e.name d.reading = some q) : ∃ d' : Document, d'.Valid ∧ put d.text e = d'.text ∧
      Rewritten (escape e.value) q (contents e.name d.reading) (contents e.name d'.reading) := by
  obtain ⟨a, o, ha, hscan, ho⟩ := exists_scan_document h.valid h.root_ne h.plain
    (Markup.tagless_escape e.value) e.name
  rw [hq] at ho
  obtain ⟨d', hd', rfl, hrewritten⟩ := ho
  exact ⟨d', hd', writer.put_of_scan he ha.quiet hscan, hrewritten⟩

/-! ### New strings -/

theorem closingTag_eq :
    closingTag = '<' :: ['/', 'r', 'e', 's', 'o', 'u', 'r', 'c', 'e', 's', '>'] := rfl

/-- The attributes of a new string behind its name. -/
def newAttributes (e : ResourceEntry) : List Attribute :=
  if e.translatable then []
  else [⟨[' '], "translatable".toList, [], [], '"', "false".toList⟩]

/-- The start tag of a new string. -/
def newTag (e : ResourceEntry) : Tag :=
  ⟨stringName, ⟨[' '], nameName, [], [], '"', e.name⟩ :: newAttributes e, []⟩

theorem leads_newTag (e : ResourceEntry) :
    Leads (newTag e) ⟨[' '], nameName, [], [], '"', e.name⟩ (newAttributes e) :=
  ⟨rfl, rfl, rfl, rfl, rfl, rfl⟩

theorem valid_newTag (he : Named e) : (newTag e).Valid := by
  obtain ⟨hne, hquote, hbare, -⟩ := he
  have hname : Attribute.Valid ⟨[' '], nameName, [], [], '"', e.name⟩ :=
    ⟨List.cons_ne_nil _ _, rfl, List.cons_ne_nil _ _, rfl, rfl, rfl, .inl rfl, hquote, hbare⟩
  refine ⟨List.cons_ne_nil _ _, rfl, ?_, ?_, rfl⟩
  · refine List.forall_mem_cons.mpr ⟨hname, ?_⟩
    unfold newAttributes
    split
    · exact List.forall_mem_nil _
    · exact List.forall_mem_singleton.mpr
        ⟨by decide, rfl, by decide, rfl, rfl, rfl, .inl rfl, by decide, by decide⟩
  · unfold newTag newAttributes
    split
    · exact (by decide : [nameName].Nodup)
    · exact (by decide : [nameName, "translatable".toList].Nodup)

theorem render_new (e : ResourceEntry) (v : Text) :
    render e.name (if e.translatable then [] else " translatable=\"false\"".toList) v =
      '<' :: (newTag e).text ++ '>' :: v ++ '<' :: '/' :: (newTag e).name ++ ['>'] := by
  have hattributes : (if e.translatable then [] else " translatable=\"false\"".toList) =
      Markup.attributesText (newAttributes e) ++ [] := by
    unfold newAttributes
    split <;> rfl
  rw [(leads_newTag e).text_item_some, render_eq, hattributes]
  rfl

/-- The new string with the white space around it. -/
def newContent (e : ResourceEntry) (w s : Text) : Content :=
  (Content.ofText (w ++ [' ', ' '])).append
    (.element (newTag e) (.ofText (escape e.value)) [] (.ofText ('\n' :: s)))

theorem valid_newContent (he : Named e) {w s : Text} (hw : w.isBlank) (hs : s.isBlank) :
    (newContent e w s).Valid := by
  have hindent : '<' ∉ w ++ [' ', ' '] := by simp [Content.notMem_of_isBlank hw]
  have hend : '<' ∉ '\n' :: s := by simp [Content.notMem_of_isBlank hs]
  exact Content.valid_append.mpr ⟨Content.valid_ofText hindent, valid_newTag he,
    Content.valid_ofText (Markup.tagless_escape e.value).1, rfl, Content.valid_ofText hend⟩

theorem text_newContent (e : ResourceEntry) (w s : Text) : (newContent e w s).text =
    w ++ (' ' :: ' ' :: ('<' :: (newTag e).text ++ '>' :: escape e.value ++
      '<' :: '/' :: (newTag e).name ++ ['>']) ++ ['\n']) ++ s := by
  simp [newContent, Content.text]

theorem contents_newContent (e : ResourceEntry) (w s : Text) :
    contents e.name (newContent e w s) = [escape e.value] := by
  unfold newContent
  rw [contents_append, ((leads_newTag e).part_written rfl (escape e.value)).contents]
  simp [contents]

/-- Writing to a name of which nothing is seen. -/
theorem exists_put_of_unseen (h : Table d) (he : Named e)
    (hq : sighting? e.name d.reading = none) : ∃ d' : Document, d'.Valid ∧ put d.text e = d'.text ∧
      contents e.name d'.reading = contents e.name d.reading ++ [escape e.value] := by
  obtain ⟨a, o, ha, hscan, ho⟩ := exists_scan_document h.valid h.root_ne h.plain
    (Markup.tagless_escape e.value) e.name
  rw [hq] at ho
  obtain rfl : o = none := ho
  have hfind : findElement? e.name d.text = none := by
    cases hscan with
    | absent ss text fair names =>
        rw [List.nil_append] at text
        rw [text]
        exact findElement?_of_absent fair ha.quiet names
  have hput : put d.text e = Markup.insertLines d.text (Markup.closingTagPos closingTag d.text)
      (' ' :: ' ' :: ('<' :: (newTag e).text ++ '>' :: escape e.value ++
        '<' :: '/' :: (newTag e).name ++ ['>']) ++ ['\n']) := by
    unfold put
    rw [hfind]
    simp only
    rw [render_new]
  obtain ⟨l, s, w, hcontent, hs, hw, hinsert⟩ :=
    Markup.exists_insertLines closingTag_eq (by decide) h.last d.getLast?_front d.content
  obtain ⟨hprolog, htag, hk, hspace, hepilog, hmisc, hmisc'⟩ := Document.valid_iff.mp h.valid
  rw [hcontent] at hk
  have hk' : (l.append (newContent e w s)).Valid :=
    Content.valid_append.mpr ⟨(Content.valid_append.mp hk).1, valid_newContent he hw hs⟩
  refine ⟨{ d with content := l.append (newContent e w s) },
    Document.valid_iff.mpr ⟨hprolog, htag, hk', hspace, hepilog, hmisc, hmisc'⟩, ?_, ?_⟩
  · rw [hput, h.text_eq d.content, hinsert, h.text_eq, Content.text_append, text_newContent]
    simp only [List.append_assoc]
  · rw [h.contents_eq, h.contents_eq e.name d.content, hcontent]
    simp only [contents_append, contents_newContent, contents_ofText, List.append_nil]

/-! ### One string of a name -/

theorem Rewritten.eq_singleton {cs cs' : List Text} (h : Rewritten v .element cs cs')
    (hone : cs.length ≤ 1) : cs' = [v] := by
  cases h with
  | element pre c inner post =>
      simp only [List.length_append, List.length_cons] at hone
      rw [List.eq_nil_of_length_eq_zero (l := pre) (by omega),
        List.eq_nil_of_length_eq_zero (l := post) (by omega)]
      rfl

theorem Rewritten.eq_of_comment {cs cs' : List Text} (h : Rewritten v .comment cs cs') : cs' = cs := by
  cases h with
  | comment => rfl

/-- Writing an entry to a table with at most one string of its name leaves one, with the value, if and
only if the string is seen, or neither a string nor a comment has the name, or what is written goes
into a comment and the string had the value. -/
theorem contents_putAll_iff (h : Table d) (he : Named e)
    (hone : (contents e.name d.reading).length ≤ 1) :
    ∃ d' : Document, d'.Valid ∧ putAll? d.text [e] = some d'.text ∧
      (contents e.name d'.reading = [escape e.value] ↔
        sighting? e.name d.reading = some .element ∨
        sighting? e.name d.reading = none ∧ contents e.name d.reading = [] ∨
        sighting? e.name d.reading = some .comment ∧ contents e.name d.reading = [escape e.value]) := by
  have hputAll : putAll? d.text [e] = some (put d.text e) := by
    have hend : closingTag.occursIn d.text :=
      Text.occursIn_iff.mpr ⟨d.front ++ d.content.text, d.epilog.text, (h.text_eq d.content).symm⟩
    rw [putAll?, if_pos hend]
    rfl
  rw [hputAll]
  cases hq : sighting? e.name d.reading with
  | none =>
      obtain ⟨d', hd', hput, hcontents⟩ := exists_put_of_unseen h he hq
      exact ⟨d', hd', congrArg some hput, by simp [hcontents]⟩
  | some q =>
      obtain ⟨d', hd', hput, hrewritten⟩ := exists_put_of_sighting h he hq
      refine ⟨d', hd', congrArg some hput, ?_⟩
      cases q with
      | element => simp [hrewritten.eq_singleton hone]
      | comment => simp [hrewritten.eq_of_comment]

/-! ### Tables with one string -/

theorem quiet_of_notMem {g : Text} (h : '<' ∉ g) : Quiet g := by
  rintro x i y - - rfl
  refine h ?_
  rw [start_eq]
  simp

def tableOf (k : Content) : Document :=
  ⟨.done, ⟨['r', 'e', 's', 'o', 'u', 'r', 'c', 'e', 's'], [], []⟩, k, [], .char '\n' .done⟩

/-- A string element on a line of its own. -/
def lineOf (as : List Attribute) (t : Text) (rest : Content) : Content :=
  .char '\n' (.char ' ' (.char ' ' (.element ⟨stringName, as, []⟩ (.ofText t) [] rest)))

def nameAttribute : Attribute := ⟨[' '], nameName, [], [], '"', ['N']⟩

def otherAttribute : Attribute := ⟨[' '], "translatable".toList, [], [], '"', "false".toList⟩

/-- A table with a string whose name is in the first place. -/
def nameFirst : Document :=
  tableOf (lineOf [nameAttribute, otherAttribute] "old".toList (.char '\n' .done))

/-- A table with a string whose name is in the second place. -/
def nameSecond : Document :=
  tableOf (lineOf [otherAttribute, nameAttribute] "old".toList (.char '\n' .done))

def newEntry : ResourceEntry := ⟨['N'], "new".toList, false⟩

theorem table_nameFirst : Table nameFirst where
  valid := by decide
  root := rfl
  space := rfl
  plain := by
    have hleading : leading? ⟨stringName, [nameAttribute, otherAttribute], []⟩ =
        some (nameAttribute, [otherAttribute]) := by decide
    have htag : PlainTag ⟨stringName, [nameAttribute, otherAttribute], []⟩ := by
      intro a as h
      rw [hleading] at h
      cases h
      decide
    exact ⟨nofun, ⟨htag, ⟨rfl, quiet_of_notMem (by decide), by decide⟩, trivial⟩, trivial⟩
  last := by decide

/-- With the name in the first place, the string gets the value. -/
theorem contents_putAll_iff_nameFirst :
    Table nameFirst ∧ Named newEntry ∧ (contents ['N'] nameFirst.reading).length ≤ 1 ∧
      ∃ d' : Document, d'.Valid ∧ putAll? nameFirst.text [newEntry] = some d'.text ∧
        contents ['N'] d'.reading = ["new".toList] := by
  have hnamed : Named newEntry := by decide
  have hone : (contents ['N'] nameFirst.reading).length ≤ 1 := by decide
  have hseen : sighting? ['N'] nameFirst.reading = some .element := by decide
  obtain ⟨d', hd', hput, hiff⟩ := contents_putAll_iff table_nameFirst hnamed hone
  exact ⟨table_nameFirst, hnamed, hone, d', hd', hput, hiff.mpr (.inl hseen)⟩

/-- With the name in the second place, the string stays as it is, and another one comes in. -/
theorem contents_putAll_nameSecond :
    nameSecond.Valid ∧ Named newEntry ∧ (contents ['N'] nameSecond.reading).length = 1 ∧
      ∃ d' : Document, d'.Valid ∧ putAll? nameSecond.text [newEntry] = some d'.text ∧
        contents ['N'] d'.reading = ["old".toList, "new".toList] := by
  refine ⟨by decide, by decide, by decide,
    tableOf (lineOf [otherAttribute, nameAttribute] "old".toList
      (lineOf [nameAttribute, otherAttribute] "new".toList (.char '\n' .done))), ?_, ?_, ?_⟩
  · decide
  · decide
  · decide

end Graft.StringTable
