import Graft.Proofs.Resource.Layout
import Graft.Proofs.Text.Tight
import Mathlib.Data.List.Induction

/-! # Writing entries into a document

A `Writer` writes one entry into a document of a form: it gives the value to the first item of that
name, or puts a new item on a line of its own before the last closing tag.  A `Draft` is a document
that is being written: the items that were there, and the new lines, all at one place.  Every write
leads from one proper draft to another (`Grown.overwrite`, `Grown.exists_line`), and so do all writes
of a list (`Writer.foldl_put`). -/

namespace Graft.Markup

open Text (AtLineStart)
open Naming (lastValue?)

/-- How entries are written into documents of a form. -/
structure Writer (E : Type) extends Form E where
  put : Text → ResourceEntry → Text
  /-- The entry has a name that an item can have. -/
  Named : ResourceEntry → Prop
  /-- The item can be put on new lines behind some white space. -/
  Line : Text → E → Prop
  line_blank : ∀ l i, Line l i → l.isBlank
  line_good : ∀ l i, Line l i → Good i
  line_set : ∀ l i v, Line l i → Tagless v → Line l (set i v)
  put_of_split : ∀ as s bs tail e, Named e → toForm.Fair (as ++ s :: bs) → Quiet tail →
    (∀ s' ∈ as, toForm.slots.name s' ≠ e.name) → toForm.slots.name s = e.name →
    put (toForm.slotsText (as ++ s :: bs) ++ tail) e =
      toForm.slotsText (as ++ toForm.slots.set s (escape e.value) :: bs) ++ tail
  put_of_absent : ∀ ss tail e, Named e → toForm.Fair ss → Quiet tail →
    (∀ s ∈ ss, toForm.slots.name s ≠ e.name) → ∃ l i, Line l i ∧ name i = e.name ∧
      value i = escape e.value ∧ set i (escape e.value) = i ∧
      put (toForm.slotsText ss ++ tail) e =
        insertLines (toForm.slotsText ss ++ tail) (closingTagPos tag (toForm.slotsText ss ++ tail))
          (l ++ text i ++ ['\n'])

/-- A document that is being written: slots, a text, new lines, each with white space before an item,
and a text. -/
structure Draft (E : Type) where
  olds : List (Slot E)
  front : Text
  lines : List (Text × E)
  back : Text

namespace Draft

variable {E : Type}

/-- The slots of lines behind a text. -/
def lineSlots : Text → List (Text × E) → List (Slot E)
  | _, [] => []
  | a, l :: ls => ⟨a ++ l.1, l.2⟩ :: lineSlots ['\n'] ls

/-- The rest behind the last slot of lines. -/
def rest : Text → List (Text × E) → Text → Text
  | a, [], b => a ++ b
  | _, _ :: ls, b => rest ['\n'] ls b

def slots (d : Draft E) : List (Slot E) := d.olds ++ lineSlots d.front d.lines

def tail (d : Draft E) : Text := rest d.front d.lines d.back

/-- The text of new lines. -/
def linesText (F : Form E) (ls : List (Text × E)) : Text :=
  ls.flatMap fun l => l.1 ++ F.text l.2 ++ ['\n']

def text (F : Form E) (d : Draft E) : Text :=
  F.slotsText d.olds ++ d.front ++ linesText F d.lines ++ d.back

variable {F : Form E}

theorem slotsText_lineSlots (a : Text) (ls : List (Text × E)) (b : Text) :
    F.slotsText (lineSlots a ls) ++ rest a ls b = a ++ linesText F ls ++ b := by
  induction ls generalizing a with
  | nil => simp [lineSlots, rest, linesText, Form.slotsText]
  | cons l ls ih =>
      rw [lineSlots, rest, Form.slotsText_cons, List.append_assoc, ih, linesText, linesText,
        List.flatMap_cons]
      simp

theorem text_eq (d : Draft E) : d.text F = F.slotsText d.slots ++ d.tail := by
  rw [slots, tail, Form.slotsText_append, List.append_assoc, slotsText_lineSlots, text]
  simp

theorem lineSlots_concat {ls : List (Text × E)} (h : ls ≠ []) (a : Text) (l : Text × E) :
    lineSlots a (ls ++ [l]) = lineSlots a ls ++ [⟨'\n' :: l.1, l.2⟩] := by
  induction ls generalizing a with
  | nil => exact absurd rfl h
  | cons x ls ih =>
      cases ls with
      | nil => rfl
      | cons y ls => rw [List.cons_append, lineSlots, ih (by simp), lineSlots]; rfl

theorem rest_of_ne_nil {ls : List (Text × E)} (h : ls ≠ []) (a b : Text) :
    rest a ls b = '\n' :: b := by
  induction ls generalizing a with
  | nil => exact absurd rfl h
  | cons x ls ih =>
      cases ls with
      | nil => rfl
      | cons y ls => rw [rest, ih (by simp)]

theorem atLineStart_linesText {ls : List (Text × E)} (h : ls ≠ []) (a : Text) :
    AtLineStart (a ++ linesText F ls) := by
  obtain ⟨ls, l, rfl⟩ := List.eq_nil_or_concat ls |>.resolve_left h
  refine .inr ?_
  rw [linesText, List.concat_eq_append, List.flatMap_append, List.flatMap_singleton]
  simp [← List.append_assoc]

/-- The naming of lines by their items. -/
def lineNaming (F : Form E) : Naming (Text × E) where
  name l := F.name l.2
  set l v := (l.1, F.set l.2 v)
  name_set l v := F.name_set l.2 v
  set_set l v v' := by simp only [F.set_set]

theorem overwrite_lineSlots (n v a : Text) (ls : List (Text × E)) :
    F.slots.overwrite n v (lineSlots a ls) = lineSlots a ((lineNaming F).overwrite n v ls) := by
  induction ls generalizing a with
  | nil => rfl
  | cons l ls ih =>
      rw [lineSlots, Naming.overwrite, Naming.overwrite]
      by_cases h : F.name l.2 = n
      · have hslot : F.slots.name ⟨a ++ l.1, l.2⟩ = n := h
        have hline : (lineNaming F).name l = n := h
        rw [if_pos hslot, if_pos hline]
        rfl
      · have hslot : F.slots.name ⟨a ++ l.1, l.2⟩ ≠ n := h
        have hline : (lineNaming F).name l ≠ n := h
        rw [if_neg hslot, if_neg hline, lineSlots, ih]

/-- The draft can be written to. -/
structure Proper (W : Writer E) (d : Draft E) : Prop where
  fair : W.Fair d.slots
  quiet : W.Quiet d.tail
  tag : W.tag <:+: d.tail
  lines : ∀ l ∈ d.lines, W.Line l.1 l.2
  back : d.lines ≠ [] → Ending W.tag d.back

/-! ### Overwriting a value -/

/-- The draft with the value of the first item of a name replaced. -/
def overwrite (F : Form E) (n v : Text) (d : Draft E) : Draft E :=
  if (F.slots.first? n d.olds).isSome then { d with olds := F.slots.overwrite n v d.olds }
  else { d with lines := (lineNaming F).overwrite n v d.lines }

theorem slots_overwrite (n v : Text) (d : Draft E) :
    (d.overwrite F n v).slots = F.slots.overwrite n v d.slots := by
  rw [slots, slots, Naming.overwrite_append, overwrite]
  split
  · rfl
  · rw [overwrite_lineSlots]

theorem overwrite_eq_nil_iff {α : Type} (N : Naming α) (n v : Text) (xs : List α) :
    N.overwrite n v xs = [] ↔ xs = [] := by
  cases xs with
  | nil => rfl
  | cons x xs =>
      rw [Naming.overwrite]
      split <;> simp

theorem rest_overwrite (n v a : Text) (ls : List (Text × E)) (b : Text) :
    rest a ((lineNaming F).overwrite n v ls) b = rest a ls b := by
  by_cases h : ls = []
  · rw [h, Naming.overwrite]
  · rw [rest_of_ne_nil h, rest_of_ne_nil (mt (overwrite_eq_nil_iff _ _ _ _).mp h)]

theorem tail_overwrite (n v : Text) (d : Draft E) : (d.overwrite F n v).tail = d.tail := by
  rw [tail, tail, overwrite]
  split
  · rfl
  · exact rest_overwrite n v d.front d.lines d.back

end Draft

namespace Form

variable {E : Type} {F : Form E}

theorem Fair.overwrite {ss : List (Slot E)} (h : F.Fair ss) (n : Text) {v : Text} (hv : Tagless v) :
    F.Fair (F.slots.overwrite n v ss) := by
  induction ss with
  | nil => exact h
  | cons s ss ih =>
      obtain ⟨⟨hgap, hitem⟩, hss⟩ := fair_cons.mp h
      rw [Naming.overwrite]
      split
      · exact fair_cons.mpr ⟨⟨hgap, F.good_set _ _ hitem hv⟩, hss⟩
      · exact fair_cons.mpr ⟨⟨hgap, hitem⟩, ih hss⟩

end Form

namespace Draft

variable {E : Type} {W : Writer E} {d : Draft E} {e : ResourceEntry}

theorem lines_overwrite {ls : List (Text × E)} (h : ∀ l ∈ ls, W.Line l.1 l.2) (n : Text) {v : Text}
    (hv : Tagless v) : ∀ l ∈ (lineNaming W.toForm).overwrite n v ls, W.Line l.1 l.2 := by
  induction ls with
  | nil => exact h
  | cons l ls ih =>
      obtain ⟨hl, hls⟩ := List.forall_mem_cons.mp h
      rw [Naming.overwrite]
      split
      · exact List.forall_mem_cons.mpr ⟨W.line_set _ _ _ hl hv, hls⟩
      · exact List.forall_mem_cons.mpr ⟨hl, ih hls⟩

theorem Proper.overwrite (h : d.Proper W) (n : Text) {v : Text} (hv : Tagless v) :
    (d.overwrite W.toForm n v).Proper W where
  fair := by
    rw [slots_overwrite]
    exact h.fair.overwrite n hv
  quiet := by
    rw [tail_overwrite]
    exact h.quiet
  tag := by
    rw [tail_overwrite]
    exact h.tag
  lines := by
    rw [Draft.overwrite]
    split
    · exact h.lines
    · exact lines_overwrite h.lines n hv
  back := by
    rw [Draft.overwrite]
    split
    · exact h.back
    · exact fun hne => h.back (mt (overwrite_eq_nil_iff _ _ _ _).mpr hne)

theorem Proper.put_of_present (h : d.Proper W) (he : W.Named e)
    (hpresent : ∃ s ∈ d.slots, W.slots.name s = e.name) :
    W.put (d.text W.toForm) e = (d.overwrite W.toForm e.name (escape e.value)).text W.toForm := by
  obtain ⟨as, s, bs, hslots, hs, has⟩ := W.slots.exists_split hpresent
  have hfair := h.fair
  rw [text_eq, text_eq, slots_overwrite, tail_overwrite]
  rw [hslots] at hfair ⊢
  rw [W.put_of_split as s bs d.tail e he hfair h.quiet has hs, W.slots.overwrite_split has hs]

/-! ### Adding a line -/

theorem getLast?_slotsText {ss : List (Slot E)} (hss : W.Fair ss) (hne : ss ≠ []) :
    (W.slotsText ss).getLast? = some '>' := by
  obtain ⟨init, s, rfl⟩ := List.eq_nil_or_concat ss |>.resolve_left hne
  rw [List.concat_eq_append] at hss ⊢
  have hitem := (hss s (by simp)).2
  have hlast := W.last _ hitem
  have hnil : W.slotsText [] = [] := rfl
  rw [Form.slotsText_append, Form.slotsText_cons, hnil, List.append_nil, List.getLast?_append,
    List.getLast?_append, hlast]
  rfl

/-- The place for new lines is behind the last slot. -/
theorem exists_place {ss : List (Slot E)} {tail : Text} (hss : W.Fair ss)
    (htag : W.tag <:+: tail) :
    ∃ front back, tail = front ++ back ∧ Ending W.tag back ∧
      closingTagPos W.tag (W.slotsText ss ++ tail) = (W.slotsText ss ++ front).length := by
  obtain ⟨x, y, hxy⟩ := htag
  obtain ⟨a, back, ht, hpos, hback⟩ := exists_ending (t := W.slotsText ss ++ tail) W.tag_ne
    ⟨W.slotsText ss ++ x, y, by rw [← hxy]; simp⟩
  suffices hpre : W.slotsText ss <+: a by
    obtain ⟨front, rfl⟩ := hpre
    rw [List.append_assoc] at ht
    exact ⟨front, back, List.append_cancel_left ht, hback, hpos⟩
  -- Otherwise the last slot would end in the white space before the tag.
  rcases List.append_eq_append_iff.mp ht with ⟨r, hr, -⟩ | ⟨r, hr, hrest⟩
  · exact ⟨r, hr.symm⟩
  · by_cases hr0 : r = []
    · rw [hr0, List.append_nil] at hr
      exact ⟨[], by rw [hr, List.append_nil]⟩
    · exfalso
      obtain ⟨w, z, rfl, hw, -, hlast⟩ := hback
      rw [List.append_assoc] at hrest
      have hblank : Text.isBlank r := by
        rcases List.append_eq_append_iff.mp hrest with ⟨r', rfl, htail⟩ | ⟨w', rfl, -⟩
        · have hr' : r' ++ x = [] := hlast (r' ++ x) y (by rw [htail, ← hxy]; simp)
          rw [(List.append_eq_nil_iff.mp hr').1, List.append_nil]
          exact hw
        · exact (Text.isBlank_append.mp hw).1
      have hne : ss ≠ [] := by
        rintro rfl
        have : a ++ r = [] := hr.symm
        exact hr0 (List.append_eq_nil_iff.mp this).2
      have hlast := getLast?_slotsText hss hne
      have hmem : '>' ∈ r := by
        rw [hr, List.getLast?_append] at hlast
        cases hr' : r.getLast? with
        | none => exact absurd (List.getLast?_eq_none_iff.mp hr') hr0
        | some c =>
            rw [hr', Option.some_or] at hlast
            exact List.mem_of_getLast? (hr'.trans hlast)
      exact absurd (List.all_eq_true.mp hblank '>' hmem) (by decide)

theorem fair_lines {ss : List (Slot E)} (hss : W.Fair ss) {g : Text} {i : E} (hg : W.Quiet g)
    (hi : W.Good i) : W.Fair (ss ++ [⟨g, i⟩]) :=
  Form.fair_append.mpr ⟨hss, Form.fair_cons.mpr ⟨⟨hg, hi⟩, List.forall_mem_nil _⟩⟩

/-- The draft with one more line at the place for new lines: the item behind some white space. -/
structure OneMore (W : Writer E) (l : Text) (i : E) (d d' : Draft E) : Prop where
  proper : d'.Proper W
  olds : d'.olds = d.olds
  lines : d'.lines = d.lines ++ [(l, i)]
  slots : ∃ g, d'.slots = d.slots ++ [⟨g, i⟩]
  place : d.lines = [] ∧ (∃ f, d.front ++ d.back = f ++ d'.back ∧
      (d'.front = f ∨ d'.front = f ++ ['\n'])) ∨
    d.lines ≠ [] ∧ d'.front = d.front ∧ d'.back = d.back
  text : d'.text W.toForm = insertLines (d.text W.toForm) (closingTagPos W.tag (d.text W.toForm))
    (l ++ W.text i ++ ['\n'])

variable {l : Text} {i : E}

/-- The place for the first new line is looked for behind the slots. -/
theorem Proper.exists_first (h : d.Proper W) (hlines : d.lines = []) (hline : W.Line l i) :
    ∃ d', OneMore W l i d d' := by
  have hslots : d.slots = d.olds := by rw [slots, hlines, lineSlots, List.append_nil]
  have htail : d.tail = d.front ++ d.back := by rw [tail, hlines, rest]
  have hquiet := h.quiet
  have htag := h.tag
  have hfair := h.fair
  rw [htail] at hquiet htag
  rw [hslots] at hfair
  obtain ⟨f, back, hfb, hback, hpos⟩ := exists_place hfair htag
  have htext : d.text W.toForm = W.slotsText d.olds ++ f ++ back := by
    rw [text_eq, hslots, htail, hfb, List.append_assoc]
  rw [hfb] at hpos hquiet
  refine ⟨⟨d.olds, f ++ newline (W.slotsText d.olds ++ f), [(l, i)], back⟩,
    ⟨?_, ?_, ?_, List.forall_mem_singleton.mpr hline, fun _ => hback⟩, rfl, by rw [hlines]; rfl,
    ⟨f ++ newline (W.slotsText d.olds ++ f) ++ l, by rw [hslots]; rfl⟩,
    .inl ⟨hlines, f, hfb, ?_⟩, ?_⟩
  · refine fair_lines hfair ?_ (W.line_good l i hline)
    rw [List.append_assoc]
    exact W.quiet_front f back _ hquiet hback
      (Text.isBlank_append.mpr ⟨isBlank_newline _, W.line_blank l i hline⟩)
  · rw [tail, rest_of_ne_nil (by simp)]
    exact W.quiet_back f back hquiet
  · rw [tail, rest_of_ne_nil (by simp)]
    exact List.IsInfix.trans hback.tag_infix ⟨['\n'], [], by simp⟩
  · rw [newline]
    split <;> simp
  · rw [htext, List.append_assoc _ f back, hpos, ← List.append_assoc, insertLines_append, text,
      linesText]
    simp

/-- The place for one more line is behind the last new line. -/
theorem Proper.oneMore (h : d.Proper W) (hlines : d.lines ≠ []) (hline : W.Line l i) :
    OneMore W l i d { d with lines := d.lines ++ [(l, i)] } := by
  have hback := h.back hlines
  have hslots : ({ d with lines := d.lines ++ [(l, i)] } : Draft E).slots =
      d.slots ++ [⟨'\n' :: l, i⟩] := by
    rw [slots, slots, lineSlots_concat hlines, List.append_assoc]
  have htail : ({ d with lines := d.lines ++ [(l, i)] } : Draft E).tail = d.tail := by
    rw [tail, tail, rest_of_ne_nil hlines, rest_of_ne_nil (by simp)]
  have hpos : closingTagPos W.tag (d.text W.toForm) =
      (W.slotsText d.olds ++ d.front ++ linesText W.toForm d.lines).length := by
    rw [text]
    exact hback.closingTagPos_eq W.tag_ne (atLineStart_linesText hlines _)
  refine ⟨⟨?_, ?_, ?_, ?_, fun _ => hback⟩, rfl, rfl, ⟨_, hslots⟩, .inr ⟨hlines, rfl, rfl⟩, ?_⟩
  · rw [hslots]
    have hgap : Text.isBlank (['\n'] ++ l) :=
      Text.isBlank_append.mpr ⟨by decide, W.line_blank l i hline⟩
    exact fair_lines h.fair (W.quiet_blank _ hgap) (W.line_good l i hline)
  · rw [htail]
    exact h.quiet
  · rw [htail]
    exact h.tag
  · exact List.forall_mem_append.mpr ⟨h.lines, List.forall_mem_singleton.mpr hline⟩
  · rw [hpos, text, text, insertLines_append,
      newline_of_atLineStart (atLineStart_linesText hlines _), linesText, linesText,
      List.flatMap_append]
    simp

/-- A new item goes on a line of its own: on the first new line, or behind the new lines there
are. -/
theorem Proper.put_of_absent (h : d.Proper W) (he : W.Named e)
    (habsent : ∀ s ∈ d.slots, W.slots.name s ≠ e.name) :
    ∃ l i d', OneMore W l i d d' ∧ W.name i = e.name ∧ W.value i = escape e.value ∧
      W.set i (escape e.value) = i ∧ W.put (d.text W.toForm) e = d'.text W.toForm := by
  obtain ⟨l, i, hline, hname, hvalue, hset, hput⟩ :=
    W.put_of_absent d.slots d.tail e he h.fair h.quiet habsent
  obtain ⟨d', hmore⟩ : ∃ d', OneMore W l i d d' := by
    by_cases hlines : d.lines = []
    · exact h.exists_first hlines hline
    · exact ⟨_, h.oneMore hlines hline⟩
  rw [← text_eq] at hput
  exact ⟨l, i, d', hmore, hname, hvalue, hset, hput.trans hmore.text.symm⟩

/-! ### All writes of a list -/

/-- The entries that slots stand for. -/
def entries (F : Form E) (ss : List (Slot E)) : List ResourceEntry :=
  ss.map fun s => .ofTexts (F.name s.item) (F.value s.item)

/-- The entry as it is written. -/
def escaped (e : ResourceEntry) : ResourceEntry := .ofTexts e.name (escape e.value)

/-- The names and values that entries write. -/
def writes (es : List ResourceEntry) : List (Text × Text) := es.map fun e => (e.name, escape e.value)

/-- The entries with others taken up, one after the other. -/
def upsertAll (es xs : List ResourceEntry) : List ResourceEntry :=
  es.foldl (fun xs e => (escaped e).upsert xs) xs

/-- A draft that comes from slots and a rest by writing some entries. -/
structure Grown (W : Writer E) (ss : List (Slot E)) (tail : Text) (es : List ResourceEntry)
    (d : Draft E) : Prop where
  proper : d.Proper W
  text : es.foldl W.put (W.slotsText ss ++ tail) = d.text W.toForm
  entries : entries W.toForm d.slots = upsertAll es (entries W.toForm ss)
  olds : d.olds = W.slots.overwriteAll (writes es) ss
  place : d.lines = [] ∧ d.front ++ d.back = tail ∨
    d.lines ≠ [] ∧ ∃ f, tail = f ++ d.back ∧ (d.front = f ∨ d.front = f ++ ['\n'])
  settled : W.slots.Settled (writes es) d.slots

variable {es : List ResourceEntry} {ss : List (Slot E)} {tail : Text}

theorem writes_concat (es : List ResourceEntry) (e : ResourceEntry) :
    writes (es ++ [e]) = writes es ++ [(e.name, escape e.value)] := List.map_append

theorem upsertAll_concat (es xs : List ResourceEntry) (e : ResourceEntry) :
    upsertAll (es ++ [e]) xs = (escaped e).upsert (upsertAll es xs) := List.foldl_append

theorem entries_overwrite {ss : List (Slot E)} (hpresent : ∃ s ∈ ss, W.slots.name s = e.name) :
    entries W.toForm (W.slots.overwrite e.name (escape e.value) ss) =
      (escaped e).upsert (entries W.toForm ss) := by
  obtain ⟨as, s, bs, rfl, hs, has⟩ := W.slots.exists_split hpresent
  have has' : ∀ x ∈ entries W.toForm as, x.name ≠ (escaped e).name := by
    intro x hx
    obtain ⟨s', hs', rfl⟩ := List.mem_map.mp hx
    exact has s' hs'
  have hs' : (ResourceEntry.ofTexts (W.name s.item) (W.value s.item)).name = (escaped e).name := hs
  have hsplit (s : Slot E) : entries W.toForm (as ++ s :: bs) = entries W.toForm as ++
      .ofTexts (W.name s.item) (W.value s.item) :: entries W.toForm bs := by
    rw [entries, List.map_append, List.map_cons]
    rfl
  rw [W.slots.overwrite_split has hs, hsplit, hsplit, ResourceEntry.upsert_split has' hs']
  simp only [Form.slots, W.name_set, W.value_set, ResourceEntry.ofTexts, escaped]

theorem entries_append {g : Text} {i : E} {ss : List (Slot E)} (hname : W.name i = e.name)
    (hvalue : W.value i = escape e.value) (habsent : ∀ s ∈ ss, W.slots.name s ≠ e.name) :
    entries W.toForm (ss ++ [⟨g, i⟩]) = (escaped e).upsert (entries W.toForm ss) := by
  have habsent' : ∀ x ∈ entries W.toForm ss, x.name ≠ (escaped e).name := by
    intro x hx
    obtain ⟨s, hs, rfl⟩ := List.mem_map.mp hx
    exact habsent s hs
  rw [ResourceEntry.upsert_of_absent habsent', entries, List.map_append, List.map_singleton, hname,
    hvalue]
  rfl

theorem olds_overwrite (n v : Text) (d : Draft E) :
    (d.overwrite W.toForm n v).olds = W.slots.overwrite n v d.olds := by
  rw [Draft.overwrite]
  split
  · rfl
  · next h =>
      have habsent : ∀ s ∈ d.olds, W.slots.name s ≠ n := by
        rw [Option.not_isSome_iff_eq_none, Naming.first?, List.find?_eq_none] at h
        simpa using h
      rw [W.slots.overwrite_of_absent habsent]

/-- One write, to a name that is there. -/
theorem Grown.overwrite (h : Grown W ss tail es d) (he : W.Named e)
    (hpresent : ∃ s ∈ d.slots, W.slots.name s = e.name) :
    Grown W ss tail (es ++ [e]) (d.overwrite W.toForm e.name (escape e.value)) where
  proper := h.proper.overwrite e.name (tagless_escape e.value)
  text := by rw [List.foldl_append, List.foldl_cons, List.foldl_nil, h.text, h.proper.put_of_present he hpresent]
  entries := by rw [slots_overwrite, entries_overwrite hpresent, h.entries, upsertAll_concat]
  olds := by rw [olds_overwrite, h.olds, writes_concat, Naming.overwriteAll_concat]
  place := by
    rw [Draft.overwrite]
    split
    · exact h.place
    · exact h.place.imp
        (fun hplace => ⟨(overwrite_eq_nil_iff _ _ _ _).mpr hplace.1, hplace.2⟩)
        fun hplace => ⟨mt (overwrite_eq_nil_iff _ _ _ _).mp hplace.1, hplace.2⟩
  settled := by
    rw [slots_overwrite, writes_concat]
    refine h.settled.concat (fun n hn => ?_) ?_
    · rw [Naming.first?_overwrite, if_neg (Ne.symm hn)]
    · obtain ⟨as, s, bs, hslots, hs, has⟩ := W.slots.exists_split hpresent
      refine ⟨W.slots.set s (escape e.value), ?_, W.slots.set_set _ _ _⟩
      rw [Naming.first?_overwrite, if_pos rfl, hslots, W.slots.first?_split has hs]
      rfl

/-- One write, to a new name. -/
theorem Grown.exists_line (h : Grown W ss tail es d) (he : W.Named e)
    (habsent : ∀ s ∈ d.slots, W.slots.name s ≠ e.name) : ∃ d', Grown W ss tail (es ++ [e]) d' := by
  obtain ⟨l, i, d', hmore, hname, hvalue, hset, hput⟩ := h.proper.put_of_absent he habsent
  obtain ⟨g, hslots⟩ := hmore.slots
  refine ⟨d', hmore.proper, ?_, ?_, ?_, .inr ⟨by rw [hmore.lines]; simp, ?_⟩, ?_⟩
  · rw [List.foldl_append, List.foldl_cons, List.foldl_nil, h.text, hput]
  · rw [hslots, entries_append hname hvalue habsent, h.entries, upsertAll_concat]
  · have habsent' : ∀ s ∈ d.olds, W.slots.name s ≠ e.name := fun s hs =>
      habsent s (List.mem_append_left _ hs)
    rw [hmore.olds, writes_concat, Naming.overwriteAll_concat, ← h.olds,
      W.slots.overwrite_of_absent habsent']
  · rcases hmore.place with ⟨hlines, f, hfb, hfront⟩ | ⟨hlines, hfront, hback⟩
    · obtain ⟨-, htail⟩ := h.place.resolve_right fun hplace => hplace.1 hlines
      exact ⟨f, by rw [← htail, hfb], hfront⟩
    · rw [hfront, hback]
      exact (h.place.resolve_left fun hplace => hlines hplace.1).2
  · rw [hslots, writes_concat]
    refine h.settled.concat (fun n hn => ?_) ⟨⟨g, i⟩, W.slots.first?_split habsent hname, ?_⟩
    · have hne : decide (W.slots.name ⟨g, i⟩ = n) = false := by
        rw [decide_eq_false_iff_not]
        rintro rfl
        exact hn hname
      rw [Naming.first?, Naming.first?, List.find?_append]
      simp [hne]
    · change (⟨g, W.set i (escape e.value)⟩ : Slot E) = ⟨g, i⟩
      rw [hset]

/-- Writes to names that are all there change values only. -/
theorem foldl_put_of_present {es : List ResourceEntry} {ss : List (Slot E)} (hss : W.Fair ss)
    (htail : W.Quiet tail)
    (hes : ∀ e ∈ es, W.Named e ∧ ∃ s ∈ ss, W.slots.name s = e.name) :
    es.foldl W.put (W.slotsText ss ++ tail) =
      W.slotsText (W.slots.overwriteAll (writes es) ss) ++ tail := by
  induction es generalizing ss with
  | nil => rfl
  | cons e es ih =>
      obtain ⟨⟨he, hpresent⟩, hes⟩ := List.forall_mem_cons.mp hes
      obtain ⟨as, s, bs, rfl, hs, has⟩ := W.slots.exists_split hpresent
      rw [List.foldl_cons, W.put_of_split as s bs tail e he hss htail has hs,
        ← W.slots.overwrite_split has hs]
      refine ih (hss.overwrite e.name (tagless_escape e.value)) fun e' he' => ⟨(hes e' he').1, ?_⟩
      obtain ⟨s', hs', hname⟩ := (hes e' he').2
      have hmem : e'.name ∈ (W.slots.overwrite e.name (escape e.value) (as ++ s :: bs)).map
          W.slots.name := by
        rw [Naming.map_name_overwrite]
        exact List.mem_map.mpr ⟨s', hs', hname⟩
      exact List.mem_map.mp hmem

/-- Entries that have been written are written again without a change. -/
theorem Grown.foldl_put (h : Grown W ss tail es d) (hes : ∀ e ∈ es, W.Named e) :
    es.foldl W.put (d.text W.toForm) = d.text W.toForm := by
  rw [text_eq, foldl_put_of_present h.proper.fair h.proper.quiet fun e he => ⟨hes e he, ?_⟩,
    W.slots.overwriteAll_of_settled h.settled]
  have hmem : (e.name, escape e.value) ∈ writes es := List.mem_map.mpr ⟨e, he, rfl⟩
  obtain ⟨v, hv⟩ := Option.isSome_iff_exists.mp (Naming.lastValue?_isSome hmem)
  obtain ⟨s, hfirst, -⟩ := h.settled _ _ hv
  exact ⟨s, List.mem_of_find?_eq_some hfirst, by simpa using List.find?_some hfirst⟩

end Draft

open Draft (Grown upsertAll writes linesText)

/-- Entries are written one by one into a document that is laid out as slots and a rest. -/
theorem Writer.exists_grown {E : Type} (W : Writer E) {ss : List (Slot E)} {tail : Text}
    {es : List ResourceEntry} (hss : W.Fair ss) (htail : W.Quiet tail) (htag : W.tag <:+: tail)
    (hes : ∀ e ∈ es, W.Named e) : ∃ d, Grown W ss tail es d := by
  induction es using List.reverseRecOn with
  | nil =>
      have hslots : (⟨ss, tail, [], []⟩ : Draft E).slots = ss := List.append_nil ss
      have htail' : (⟨ss, tail, [], []⟩ : Draft E).tail = tail := List.append_nil tail
      refine ⟨⟨ss, tail, [], []⟩, ⟨?_, ?_, ?_, List.forall_mem_nil _, fun h => absurd rfl h⟩, ?_, ?_,
        rfl, .inl ⟨rfl, List.append_nil tail⟩, fun _ _ hv => nomatch hv⟩
      · rw [hslots]
        exact hss
      · rw [htail']
        exact htail
      · rw [htail']
        exact htag
      · rw [Draft.text_eq, hslots, htail']
        rfl
      · rw [hslots]
        rfl
  | append_singleton es e ih =>
      obtain ⟨d, hd⟩ := ih fun e he => hes e (List.mem_append_left _ he)
      have he := hes e (by simp)
      by_cases hpresent : ∃ s ∈ d.slots, W.slots.name s = e.name
      · exact ⟨_, hd.overwrite he hpresent⟩
      · exact hd.exists_line he fun s hs hn => hpresent ⟨s, hs, hn⟩

/-- The text is `t` with the items of some entries' names given their values, the first of each name,
and with new items on lines of their own at one place behind all items. -/
def Writer.Rewrites {E : Type} (W : Writer E) (es : List ResourceEntry) (t t' : Text) : Prop :=
  ∃ ss front newline lines back, W.Fair ss ∧ t = W.slotsText ss ++ front ++ back ∧
    t' = W.slotsText (W.slots.overwriteAll (writes es) ss) ++ front ++ newline ++
      linesText W.toForm lines ++ back ∧
    (newline = [] ∨ lines ≠ [] ∧ newline = ['\n']) ∧ ∀ l ∈ lines, W.Line l.1 l.2

theorem Draft.Grown.rewrites {E : Type} {W : Writer E} {ss : List (Slot E)} {tail : Text}
    {es : List ResourceEntry} {d : Draft E} (h : Grown W ss tail es d) (hss : W.Fair ss) :
    W.Rewrites es (W.slotsText ss ++ tail) (d.text W.toForm) := by
  rcases h.place with ⟨hlines, htail⟩ | ⟨hlines, f, htail, hfront⟩
  · refine ⟨ss, d.front, [], d.lines, d.back, hss, by rw [← htail]; simp, ?_, .inl rfl,
      h.proper.lines⟩
    rw [Draft.text, h.olds, List.append_nil]
  · rcases hfront with hfront | hfront
    · refine ⟨ss, f, [], d.lines, d.back, hss, by rw [htail]; simp, ?_, .inl rfl, h.proper.lines⟩
      rw [Draft.text, h.olds, hfront, List.append_nil]
    · refine ⟨ss, f, ['\n'], d.lines, d.back, hss, by rw [htail]; simp, ?_, .inr ⟨hlines, rfl⟩,
        h.proper.lines⟩
      rw [Draft.text, h.olds, hfront]
      simp

/-- Entries are written into a document as a list of entries takes them up: what is found in the end
are the entries that a list would hold, the text apart from the values and the new lines stays, and
writing the same entries again changes nothing. -/
theorem Writer.foldl_put {E : Type} (W : Writer E) {ss : List (Slot E)} {tail : Text}
    {es : List ResourceEntry} (hss : W.Fair ss) (htail : W.Quiet tail) (htag : W.tag <:+: tail)
    (hes : ∀ e ∈ es, W.Named e) :
    ∃ ss' tail', W.Fair ss' ∧ W.Quiet tail' ∧
      es.foldl W.put (W.slotsText ss ++ tail) = W.slotsText ss' ++ tail' ∧
      Draft.entries W.toForm ss' = upsertAll es (Draft.entries W.toForm ss) ∧ W.tag <:+: tail' ∧
      W.Rewrites es (W.slotsText ss ++ tail) (W.slotsText ss' ++ tail') ∧
      es.foldl W.put (W.slotsText ss' ++ tail') = W.slotsText ss' ++ tail' := by
  obtain ⟨d, hd⟩ := W.exists_grown hss htail htag hes
  have htext := hd.text
  have hrewrites := hd.rewrites hss
  have hagain := hd.foldl_put hes
  rw [Draft.text_eq] at htext hrewrites hagain
  exact ⟨d.slots, d.tail, hd.proper.fair, hd.proper.quiet, htext, hd.entries, hd.proper.tag,
    hrewrites, hagain⟩

end Graft.Markup
