import Graft.Proofs.Resource.Document
import Graft.Proofs.Resource.StringTable.Leading

/-! # What the pattern sees of a table

A string is seen if its name comes first in its start tag, and so are strings in comments.  Scanning the
content of a plain table finds what is seen, and writing to the first string of a name that is seen gives
the content another reading (`exists_scan`). -/

namespace Graft.StringTable

open Markup (Attribute Tag Aside Content EndsFirst Tagless Form Slot attributesText isSpace)
open Markup.Form (Scan)

variable {k k' r : Content} {n v a a' t : Text}

/-- The tag is that of a string with a name, which may be in any place. -/
def IsNamed (n : Text) (tag : Tag) : Prop := tag.name = stringName ∧ tag.value? nameName = some n

instance (n : Text) (tag : Tag) : Decidable (IsNamed n tag) := inferInstanceAs (Decidable (_ ∧ _))

/-- The texts in the string elements of a name, comments left out. -/
def contents (n : Text) (k : Content) : List Text :=
  (k.elements.filter fun e => IsNamed n e.1).map fun e => e.2.text

/-- Whether the pattern wants a name of this tag. -/
def leadsTo (n : Text) (tag : Tag) : Bool := (leading? tag).any fun l => l.1.value = n

/-- Where the pattern sees a string first. -/
inductive Sighting where
  | element
  | comment
  deriving DecidableEq, Repr

/-- The names of the strings that are seen in a comment. -/
def commented (a : Aside) : List Text :=
  if a.kind = .comment then (entriesOf a.body).map ResourceEntry.name else []

/-- Where the pattern sees the first string of a name. -/
def sighting? (n : Text) : Content → Option Sighting
  | .done => none
  | .char _ rest => sighting? n rest
  | .aside a rest => if n ∈ commented a then some .comment else sighting? n rest
  | .empty tag rest => if leadsTo n tag then some .element else sighting? n rest
  | .element tag inner _ rest =>
    if leadsTo n tag then some .element
    else if tag.name = stringName then sighting? n rest
    else (sighting? n inner).or (sighting? n rest)

/-! ### Plain tables -/

/-- The text holds whole strings only. -/
def Laid (t : Text) : Prop := ∃ ss tail, t = form.slotsText ss ++ tail ∧ form.Fair ss ∧ Quiet tail

/-- A comment is as the standard wants it and holds whole strings only; in other asides no string
begins. -/
def PlainAside (a : Aside) : Prop :=
  if a.kind = .comment then ¬['-', '-'] <:+: a.body ∧ Laid a.body else Quiet a.text

/-- If the name comes first, it is not empty, and no bracket closes in the attributes behind it. -/
def PlainTag (tag : Tag) : Prop :=
  ∀ a as, leading? tag = some (a, as) → a.value ≠ [] ∧ '>' ∉ attributesText as

/-- What a string holds mentions neither the start nor the end of a string. -/
def PlainString (inner : Content) : Prop := Quiet inner.text ∧ ¬closing <:+: inner.text

/-- A content in which the pattern does not lose its way. -/
def Plain : Content → Prop
  | .done => True
  | .char _ rest => Plain rest
  | .aside a rest => PlainAside a ∧ Plain rest
  | .empty tag rest => PlainTag tag ∧ Plain rest
  | .element tag inner space rest =>
    PlainTag tag ∧
      (if tag.name = stringName then space = [] ∧ PlainString inner else Plain inner) ∧ Plain rest

/-! ### Writing to a content -/

/-- What becomes of the texts in the strings of a name. -/
inductive Rewritten (v : Text) : Sighting → List Text → List Text → Prop where
  | element (pre : List Text) (c : Text) (inner post : List Text) :
      Rewritten v .element (pre ++ c :: (inner ++ post)) (pre ++ v :: post)
  | comment (cs : List Text) : Rewritten v .comment cs cs

variable {q : Sighting} {cs cs' ds : List Text} {s s' : Option Sighting} {o : Option Text}

theorem Rewritten.append_left (h : Rewritten v q cs cs') (ds : List Text) :
    Rewritten v q (ds ++ cs) (ds ++ cs') := by
  cases h with
  | element pre c inner post =>
      rw [← List.append_assoc, ← List.append_assoc]
      exact .element (ds ++ pre) c inner post
  | comment => exact .comment _

theorem Rewritten.append_right (h : Rewritten v q cs cs') (ds : List Text) :
    Rewritten v q (cs ++ ds) (cs' ++ ds) := by
  cases h with
  | element pre c inner post =>
      have h := Rewritten.element (v := v) pre c inner (post ++ ds)
      simpa using h
  | comment => exact .comment _

/-- What writing to the first string of a name makes of a content, given where it is seen. -/
def Writes (n v : Text) (k : Content) (s : Option Sighting) (o : Option Text) : Prop :=
  match s with
  | none => o = none
  | some q => ∃ k' : Content, o = some k'.text ∧ k'.Valid ∧ (k.IsMisc → k'.IsMisc) ∧
      Rewritten v q (contents n k) (contents n k')

/-- The content is scanned, and the first string of a name is found where it is seen. -/
def Scans (n v a : Text) (k : Content) (s : Option Sighting) : Prop :=
  ∃ a' o, form.Sealed a' ∧ form.Scan n v a k.text a' o ∧ Writes n v k s o

/-- The first part of a content, with the texts in the strings of a name that are in it. -/
structure Part (n : Text) (f : Content → Content) (t : Text) (cs : List Text) : Prop
    extends Content.Part f t where
  misc : ∀ r r', (f r).IsMisc → (r.IsMisc → r'.IsMisc) → (f r').IsMisc
  contents : ∀ r, contents n (f r) = cs ++ contents n r

variable {f f' : Content → Content} {t' : Text}

/-- A part in which the name is not seen. -/
theorem Scans.pass (hpart : Part n f t cs) (hvalid : (f r).Valid)
    (ht : form.Scan n v a t a' none) (h : Scans n v a' r s) : Scans n v a (f r) s := by
  obtain ⟨b, o, hb, hscan, hwrites⟩ := h
  refine ⟨b, o.map (t ++ ·), hb, by rw [hpart.text]; exact ht.trans hscan, ?_⟩
  cases s with
  | none =>
      have ho : o = none := hwrites
      rw [ho]
      rfl
  | some q =>
      obtain ⟨r', rfl, hr', hmisc, hrewritten⟩ := hwrites
      refine ⟨f r', ?_, hpart.valid r r' hvalid hr', fun h => hpart.misc r r' h hmisc, ?_⟩
      · rw [hpart.text, Option.map_some]
      · rw [hpart.contents, hpart.contents]
        exact hrewritten.append_left cs

/-- A part in which the name is seen. -/
theorem Scans.stop (hpart : Part n f t cs) (hpart' : Part n f' t' cs') (hvalid : (f' r).Valid)
    (hmisc : (f r).IsMisc → (f' r).IsMisc) (hrewritten : Rewritten v q cs cs')
    (ht : form.Scan n v a t a' (some t')) (h : Scans n v a' r s) : Scans n v a (f r) (some q) := by
  obtain ⟨b, o, hb, hscan, -⟩ := h
  refine ⟨b, some (f' r).text, hb, ?_, f' r, rfl, hvalid, hmisc, ?_⟩
  · rw [hpart.text, hpart'.text]
    exact ht.trans hscan
  · rw [hpart.contents, hpart'.contents]
    exact hrewritten.append_right _

/-! ### The parts of a content -/

variable {tag : Tag} {b : Attribute} {as : List Attribute} {c : Char}

theorem part_char (n : Text) (c : Char) : Part n (.char c) [c] [] where
  toPart := Content.part_char c
  misc _ _ h hr := ⟨h.1, hr h.2⟩
  contents _ := rfl

theorem part_aside (n : Text) (b : Aside) : Part n (.aside b) b.text [] where
  toPart := Content.part_aside b
  misc _ _ h hr := ⟨h.1, hr h.2⟩
  contents _ := rfl

theorem part_empty (n : Text) (tag : Tag) :
    Part n (.empty tag) ('<' :: tag.text ++ ['/', '>']) (if IsNamed n tag then [[]] else []) where
  toPart := Content.part_empty tag
  misc _ _ h _ := h.elim
  contents r := by
    by_cases h : IsNamed n tag
    · simp [contents, Content.elements, h, Content.text]
    · simp [contents, Content.elements, h]

theorem part_element (n : Text) (tag : Tag) (inner : Content) (space : Text) :
    Part n (.element tag inner space)
      ('<' :: tag.text ++ '>' :: inner.text ++ ('<' :: '/' :: tag.name ++ space ++ ['>']))
      ((if IsNamed n tag then [inner.text] else []) ++ contents n inner) where
  toPart := Content.part_element tag inner space
  misc _ _ h _ := h.elim
  contents r := by
    by_cases h : IsNamed n tag
    · simp [contents, Content.elements, h]
    · simp [contents, Content.elements, h]

theorem Leads.isNamed_iff (h : Leads tag b as) : IsNamed n tag ↔ b.value = n := by
  unfold IsNamed Tag.value?
  rw [h.attributes, List.find?_cons_of_pos (by simpa using h.key)]
  simp [h.name]

theorem Leads.leadsTo_iff (h : Leads tag b as) : leadsTo n tag ↔ b.value = n := by
  unfold leadsTo
  rw [leading?_eq_some_iff.mpr h]
  simp

theorem leadsTo_of_none (h : leading? tag = none) : leadsTo n tag = false := by
  unfold leadsTo
  rw [h]
  rfl

/-! ### Comments -/

variable {i : Element} {ss : List (Slot Element)} {tail x y : Text} {e : Aside}

/-- Between two brackets, a text without brackets does not end a comment. -/
theorem not_closing_between (hx : ¬['-', '-'] <:+: x) (hv : '>' ∉ v) (hy : ¬['-', '-'] <:+: y) :
    ¬['-', '-', '>'] <:+: x ++ '>' :: v ++ '<' :: y := by
  intro h
  obtain h | h := Text.infix_append_cons (by decide) h
  · obtain ⟨p, q, hpq⟩ := h
    have e : x ++ '>' :: v = p ++ ['-', '-'] ++ '>' :: q := by
      rw [← hpq]
      simp
    obtain ⟨r, hr, hq⟩ | ⟨r, -, hr, -⟩ := Text.append_cases e
    · cases r with
      | nil => exact hx ⟨p, [], by rw [hr]; simp⟩
      | cons c r =>
          refine hv ?_
          rw [(List.cons.inj hq).2]
          simp
    · exact hx ⟨p, r, hr.symm⟩
  · exact hy (List.IsInfix.trans ⟨[], ['>'], rfl⟩ h)

/-- A comment goes on when a value is written to a string in it. -/
theorem endsFirst_set (hv : Tagless v) (h : ¬['-', '-'] <:+: x ++ i.text ++ y) :
    EndsFirst ['-', '-', '>'] (x ++ (i.set v).text ++ y) := by
  -- the value may hold dashes, but it stands between the brackets of two tags
  refine Markup.endsFirst_of_not_infix (by decide) ?_
  have hclosing : ∀ z : Text, closing ++ z = '<' :: (['/', 's', 't', 'r', 'i', 'n', 'g', '>'] ++ z) :=
    fun _ => rfl
  cases hcontent : i.content with
  | some content =>
      have hset : (i.set v).text = i.front ++ i.attributes ++ '>' :: v ++ closing := by
        simp [Element.set, hcontent, Element.text, Element.front, Element.start, Element.finish]
      have htext : i.text = i.front ++ i.attributes ++ '>' :: content ++ closing := by
        simp [hcontent, Element.text, Element.front, Element.finish]
      have e : x ++ (i.set v).text ++ y = x ++ i.front ++ i.attributes ++ '>' :: v ++
          '<' :: (['/', 's', 't', 'r', 'i', 'n', 'g', '>'] ++ y) := by
        rw [hset, ← hclosing]
        simp
      rw [e]
      rw [htext] at h
      refine not_closing_between (fun hx => h (hx.trans ⟨[], '>' :: content ++ closing ++ y, ?_⟩)) hv.2
        fun hy => h (hy.trans ⟨x ++ i.front ++ i.attributes ++ '>' :: content ++ ['<'], [], ?_⟩)
      · simp
      · simp [closing]
  | none =>
      have hset : (i.set v).text = opening ++ ' ' :: (nameStart ++ i.name ++ '"' ::
          i.attributes.trimEnd) ++ '>' :: v ++ closing := by
        simp [Element.set, hcontent, Element.text, Element.start, Element.finish]
      have htext : i.text = opening ++ i.space ++ nameStart ++ i.name ++ '"' :: i.attributes ++
          ['/', '>'] := by
        simp [hcontent, Element.text, Element.start, Element.finish]
      have e : x ++ (i.set v).text ++ y = x ++ opening ++ ' ' :: (nameStart ++ i.name ++ '"' ::
          i.attributes.trimEnd) ++ '>' :: v ++
          '<' :: (['/', 's', 't', 'r', 'i', 'n'] ++ 'g' :: '>' :: y) := by
        rw [hset]
        simp [closing]
      rw [e]
      rw [htext] at h
      obtain ⟨w, hw, -⟩ := Text.exists_trimEnd i.attributes
      refine not_closing_between (fun hx => ?_) hv.2 fun hy => ?_
      · obtain hx | hx := Text.infix_append_cons (by decide) hx
        · refine h (hx.trans ⟨[], i.space ++ nameStart ++ i.name ++ '"' :: i.attributes ++
            ['/', '>'] ++ y, ?_⟩)
          simp
        · refine h (hx.trans ⟨x ++ opening ++ i.space, w ++ ['/', '>'] ++ y, ?_⟩)
          conv_rhs => rw [hw]
          simp
      · obtain hy | hy := Text.infix_append_cons (by decide) hy
        · exact absurd hy (by decide)
        · refine h (hy.trans ⟨x ++ opening ++ i.space ++ nameStart ++ i.name ++ '"' ::
            i.attributes ++ ['/'], [], ?_⟩)
          simp

theorem mem_commented (hss : form.Fair ss) (htail : Quiet tail) :
    n ∈ commented ⟨.comment, form.slotsText ss ++ tail⟩ ↔ ∃ s ∈ ss, form.slots.name s = n := by
  unfold commented
  rw [if_pos rfl, entriesOf_text hss htail]
  simp [Markup.Draft.entries, ResourceEntry.ofTexts, Form.slots]

theorem sealed_comment : form.Sealed ['<', '!', '-', '-'] := by
  have hopen : Quiet ['<'] := quiet_bracket (by decide) fun i y _ _ e => by
    rw [start_eq] at e
    exact nomatch (List.cons.inj e).2
  have hdash : form.Sealed ['-'] := sealed_char (by decide)
  exact hopen.sealed_cons (c := '!') (by decide) (by decide) (hdash.append hdash)

/-- What writing to the first string of a name makes of a comment. -/
theorem exists_scan_comment (n : Text) (hdashes : ¬['-', '-'] <:+: form.slotsText ss ++ tail)
    (hss : form.Fair ss) (htail : Quiet tail) (hv : Tagless v) (ha : form.Sealed a) :
    ∃ a' o, form.Sealed a' ∧
      form.Scan n v a (⟨.comment, form.slotsText ss ++ tail⟩ : Aside).text a' o ∧
      if ∃ s ∈ ss, form.slots.name s = n then
        ∃ body, EndsFirst ['-', '-', '>'] body ∧ o = some (⟨.comment, body⟩ : Aside).text
      else o = none := by
  have htext : ∀ ss : List (Slot Element), (⟨.comment, form.slotsText ss ++ tail⟩ : Aside).text =
      ['<', '!', '-', '-'] ++ form.slotsText ss ++ (tail ++ ['-', '-', '>']) := fun ss => by
    simp [Aside.text, Markup.AsideKind.opening, Markup.AsideKind.closing]
  have hend : form.Sealed (tail ++ ['-', '-', '>']) :=
    htail.sealed_cons (by decide) (by decide)
      ((sealed_char (c := '-') (by decide)).append (sealed_char (c := '>') (by decide)))
  obtain ⟨a', ha', hslots⟩ := Markup.Form.scan_slots n v (ha.append sealed_comment) hss
  have hscan := ((Markup.Form.scan_pass n v a _).trans hslots).trans
    (Markup.Form.scan_pass n v a' (tail ++ ['-', '-', '>']))
  rw [← htext] at hscan
  refine ⟨_, _, ha'.append hend, hscan, ?_⟩
  unfold Form.overwritten?
  split
  · next hn =>
      obtain ⟨as, t, bs, rfl, ht, has⟩ := form.slots.exists_split hn
      rw [form.slots.overwrite_split has ht]
      refine ⟨form.slotsText (as ++ form.slots.set t v :: bs) ++ tail, ?_, by rw [htext]; rfl⟩
      have hset : ∀ t : Slot Element, form.slotsText (as ++ t :: bs) ++ tail =
          form.slotsText as ++ t.gap ++ t.item.text ++ (form.slotsText bs ++ tail) := fun t => by
        rw [Form.slotsText_append, Form.slotsText_cons]
        simp [form]
      rw [hset] at hdashes ⊢
      exact endsFirst_set hv hdashes
  · rfl

theorem Scans.aside (hk : (Content.aside e r).Valid) (he : PlainAside e) (hv : Tagless v)
    (ha : form.Sealed a) (h : ∀ a', form.Sealed a' → Scans n v a' r s) :
    Scans n v a (.aside e r) (if n ∈ commented e then some .comment else s) := by
  obtain ⟨kind, body⟩ := e
  unfold PlainAside at he
  split at he
  · next hkind =>
      obtain rfl : kind = .comment := hkind
      obtain ⟨hdashes, ss, tail, rfl, hss, htail⟩ := he
      obtain ⟨a', o, ha', hscan, ho⟩ := exists_scan_comment n hdashes hss htail hv ha
      simp only [mem_commented hss htail]
      split at ho
      · next hn =>
          obtain ⟨body, hbody, rfl⟩ := ho
          rw [if_pos hn]
          exact Scans.stop (part_aside n _) (part_aside n ⟨.comment, body⟩)
            ⟨⟨hbody, nofun⟩, hk.2⟩ (fun h => ⟨nofun, h.2⟩) (.comment [])
            hscan (h a' ha')
      · next hn =>
          rw [if_neg hn]
          rw [ho] at hscan
          exact Scans.pass (part_aside n _) hk hscan (h a' ha')
  · next hkind =>
      have hno : commented ⟨kind, body⟩ = [] := if_neg hkind
      rw [hno, if_neg List.not_mem_nil]
      obtain ⟨t, ht⟩ := List.getLast?_eq_some_iff.mp (Aside.getLast?_text ⟨kind, body⟩)
      rw [ht] at he
      have hsealed := sealed_of_quiet he
      rw [← ht] at hsealed
      exact Scans.pass (part_aside n _) hk (Markup.Form.scan_pass n v a _)
        (h _ (ha.append hsealed))

/-! ### Elements -/

variable {tag' : Tag} {inner : Content} {content : Option Text}

/-- A string that is seen. -/
theorem scan_string (n v : Text) (hgood : (item tag b as content).Good) (ha : form.Sealed a) :
    form.Scan n v a (item tag b as content).text []
      (if b.value = n then some ((item tag b as content).set v).text else none) :=
  Markup.Form.scan_item n v ha.quiet hgood

/-- A string to which a value has been written. -/
theorem Leads.part_written (h : Leads tag b as) (hn : b.value = n) (v : Text) :
    Part n (.element tag (.ofText v) []) ('<' :: tag.text ++ '>' :: v ++ '<' :: '/' :: tag.name ++ ['>'])
      [v] := by
  have hpart := part_element n tag (.ofText v) []
  rw [if_pos (h.isNamed_iff.mpr hn)] at hpart
  simpa [contents] using hpart

theorem Scans.empty (hk : (Content.empty tag r).Valid) (htag : PlainTag tag) (hv : Tagless v)
    (ha : form.Sealed a) (h : ∀ a', form.Sealed a' → Scans n v a' r s) :
    Scans n v a (.empty tag r) (if leadsTo n tag then some .element else s) := by
  cases hleading : leading? tag with
  | none =>
      rw [leadsTo_of_none hleading, if_neg Bool.false_ne_true]
      exact Scans.pass (part_empty n tag) hk (Markup.Form.scan_pass n v a _)
        (h _ (ha.append (sealed_startTag hk.1 hleading).2))
  | some l =>
      obtain ⟨b, as⟩ := l
      obtain ⟨hne, hbare⟩ := htag b as hleading
      have hleads := leading?_eq_some_iff.mp hleading
      have hgood : (item tag b as none).Good := hleads.good_item hk.1 hne hbare nofun
      have hscan := scan_string n v hgood ha
      rw [← hleads.text_item_none] at hscan
      have hrest := h [] Markup.Form.sealed_nil
      by_cases hn : b.value = n
      · rw [if_pos (hleads.leadsTo_iff.mpr hn)]
        rw [if_pos hn] at hscan
        -- the string does not close itself any more
        obtain ⟨tag', b', htag', hleads', hvalue, htext⟩ := hleads.exists_set_none hk.1 v
        rw [htext] at hscan
        have hpart := part_empty n tag
        rw [if_pos (hleads.isNamed_iff.mpr hn)] at hpart
        exact Scans.stop hpart (hleads'.part_written (hvalue.trans hn) v)
          ⟨htag', Content.valid_ofText hv.1, rfl, hk.2⟩ (fun h => h.elim) (.element [] [] [] []) hscan
          hrest
      · rw [if_neg (mt hleads.leadsTo_iff.mp hn)]
        rw [if_neg hn] at hscan
        exact Scans.pass (part_empty n tag) hk hscan hrest

theorem Scans.string (hk : (Content.element tag inner [] r).Valid) (htag : PlainTag tag)
    (hinner : PlainString inner) (hv : Tagless v) (ha : form.Sealed a)
    (h : ∀ a', form.Sealed a' → Scans n v a' r s) :
    Scans n v a (.element tag inner [] r) (if leadsTo n tag then some .element else s) := by
  have hpart := part_element n tag inner []
  cases hleading : leading? tag with
  | none =>
      rw [leadsTo_of_none hleading, if_neg Bool.false_ne_true]
      refine Scans.pass hpart hk (Markup.Form.scan_pass n v a _) (h _ (ha.append ?_))
      have hend := hinner.1.sealed_append (sealed_endTag hk.1 (s := []) rfl)
      have := (sealed_startTag hk.1 hleading).1.append hend
      simpa using this
  | some l =>
      obtain ⟨b, as⟩ := l
      obtain ⟨hne, hbare⟩ := htag b as hleading
      have hleads := leading?_eq_some_iff.mp hleading
      have hgood : (item tag b as (some inner.text)).Good := by
        refine hleads.good_item hk.1 hne hbare ?_
        rintro u ⟨⟩
        exact hinner.2
      have hscan := scan_string n v hgood ha
      rw [← hleads.text_item_some] at hscan
      have hrest := h [] Markup.Form.sealed_nil
      rw [List.append_nil] at hpart
      by_cases hn : b.value = n
      · rw [if_pos (hleads.leadsTo_iff.mpr hn)]
        rw [if_pos hn] at hscan
        rw [if_pos (hleads.isNamed_iff.mpr hn)] at hpart
        have hset : (item tag b as (some inner.text)).set v = item tag b as (some v) := rfl
        rw [hset, ← hleads.text_item_some] at hscan
        refine Scans.stop hpart (hleads.part_written hn v) ⟨hk.1, Content.valid_ofText hv.1, rfl, hk.2.2.2⟩
          (fun h => h.elim) ?_ (by simpa using hscan) hrest
        have := Rewritten.element (v := v) [] inner.text (contents n inner) []
        simpa using this
      · rw [if_neg (mt hleads.leadsTo_iff.mp hn)]
        rw [if_neg hn] at hscan
        exact Scans.pass hpart hk (by simpa using hscan) hrest

theorem Scans.element (hk : (Content.element tag inner w r).Valid) (hname : tag.name ≠ stringName)
    (ha : form.Sealed a) (hinner : ∀ a', form.Sealed a' → Scans n v a' inner s)
    (h : ∀ a', form.Sealed a' → Scans n v a' r s') :
    Scans n v a (.element tag inner w r) (s.or s') := by
  have hleading := leading?_of_ne hname
  have hnamed : ¬IsNamed n tag := fun h => hname h.1
  have hpart := fun inner => part_element n tag inner w
  simp only [if_neg hnamed, List.nil_append] at hpart
  obtain ⟨a', o, ha', hscan, hwrites⟩ := hinner _ (ha.append (sealed_startTag hk.1 hleading).1)
  have hend := sealed_endTag hk.1 hk.2.2.1
  have hscan' := ((Markup.Form.scan_pass n v a _).trans hscan).trans
    (Markup.Form.scan_pass n v a' ('<' :: '/' :: tag.name ++ w ++ ['>']))
  have hrest := h _ (ha'.append hend)
  cases s with
  | none =>
      have ho : o = none := hwrites
      rw [ho] at hscan'
      exact Scans.pass (hpart inner) hk (by simpa [Markup.Form.written] using hscan') hrest
  | some q =>
      obtain ⟨inner', rfl, hinner', -, hrewritten⟩ := hwrites
      exact Scans.stop (hpart inner) (hpart inner') ⟨hk.1, hinner', hk.2.2⟩ (fun h => h.elim)
        hrewritten (by simpa [Markup.Form.written] using hscan') hrest

/-- A plain content is scanned, and what is found of a name is what is seen first. -/
theorem exists_scan (hk : k.Valid) (hp : Plain k) (hv : Tagless v) (n a : Text)
    (ha : form.Sealed a) : Scans n v a k (sighting? n k) := by
  induction k generalizing a with
  | done =>
      refine ⟨a ++ [], none, ?_, Markup.Form.scan_pass n v a [], rfl⟩
      rwa [List.append_nil]
  | char c rest ih =>
      exact Scans.pass (part_char n c) hk (Markup.Form.scan_pass n v a [c])
        (ih hk.2 hp _ (ha.append (sealed_char hk.1)))
  | aside b rest ih => exact Scans.aside hk hp.1 hv ha (ih hk.2 hp.2)
  | empty tag rest ih => exact Scans.empty hk hp.1 hv ha (ih hk.2 hp.2)
  | element tag inner space rest ihinner ih =>
      obtain ⟨htag, hinner, hrest⟩ := hp
      have ih := ih hk.2.2.2 hrest
      unfold sighting?
      split at hinner
      · next hname =>
          obtain ⟨rfl, hstring⟩ := hinner
          rw [if_pos hname]
          exact Scans.string hk htag hstring hv ha ih
      · next hname =>
          rw [leadsTo_of_none (leading?_of_ne hname), if_neg Bool.false_ne_true, if_neg hname]
          exact Scans.element hk hname ha (ihinner hk.2.1 hinner) ih

end Graft.StringTable
