import Graft.Proofs.Fragment
import Graft.Proofs.Text.Survive

/-! # Injecting again

A fragment is looked for by its markers, but what goes into a text is its lines at another
indentation.  A marker on one line is found again whatever the indentation (`marker_found_again`).
A fragment without markers of its own is found again at an indentation exactly when its text comes
back from that indentation; at every indentation, exactly when it is one line
(`rests_ofText_iff`). -/

namespace Graft

open Text (Tight inset)

variable {t m text indent : Text} {f : Fragment} {chain : List Recognizer}
  {fallback : Option Recognizer}

namespace Fragment

/-- The anchor for a fragment: that of a chain, or else the place that `fallback` finds. -/
def anchor? (chain : List Recognizer) (fallback : Option Recognizer) (t : Text) : Option Anchor :=
  (resolve? chain t).orElse fun _ => fallback.bind (·.recognize? t)

/-- The injection of a fragment at the anchor that a chain finds. -/
def injectBy (f : Fragment) (chain : List Recognizer) (fallback : Option Recognizer) (t : Text) :
    Injection :=
  inject f (resolve? chain t) fallback t

/-- Whether a second injection, with the anchor looked up again, leaves the text as it is. -/
def Rests (f : Fragment) (chain : List Recognizer) (fallback : Option Recognizer) (t : Text) : Prop :=
  let once := f.injectBy chain fallback t
  let twice := f.injectBy chain fallback once.text
  twice.text = once.text ∧ (twice.outcome = .alreadyPresent ∨ twice.outcome = .anchorNotFound)

instance (f : Fragment) (chain : List Recognizer) (fallback : Option Recognizer) (t : Text) :
    Decidable (f.Rests chain fallback t) := inferInstanceAs (Decidable (_ ∧ _))

/-! ### One injection -/

theorem reindent_infix_splice (t : Text) (pos : Nat) (piece indent : Text) (blank : Bool) :
    Text.reindent piece indent <:+: splice t pos piece indent blank := by
  unfold splice
  exact ⟨_, '\n' :: t.drop pos, rfl⟩

theorem isPresent_of_holds (hscope : f.scope = none) (hm : m ∈ f.markers) (h : m <:+: t) :
    f.isPresent t := by
  unfold isPresent region
  rw [hscope]
  exact List.any_eq_true.mpr ⟨m, hm, Text.occursIn_iff.mpr h⟩

/-- A text with a marker is left alone. -/
theorem injectBy_of_holds (hscope : f.scope = none) (hm : m ∈ f.markers) (h : m <:+: t)
    (chain : List Recognizer) (fallback : Option Recognizer) :
    f.injectBy chain fallback t = ⟨t, .alreadyPresent⟩ :=
  inject_of_isPresent (isPresent_of_holds hscope hm h) _ _

/-- A fragment rests when one of its markers is found in what comes in. -/
theorem rests_of_holds (hscope : f.scope = none) (hm : m ∈ f.markers)
    (h : ∀ a, anchor? chain fallback t = some a → m <:+: Text.reindent f.text a.place.indent) :
    f.Rests chain fallback t := by
  unfold Rests
  obtain ⟨-, hinject⟩ | ⟨-, hinject⟩ | ⟨a, ha, hinject⟩ :=
    inject_cases f (resolve? chain t) fallback t
  · have honce : f.injectBy chain fallback t = ⟨t, .alreadyPresent⟩ := hinject
    simp only [honce]
    exact ⟨trivial, .inl trivial⟩
  · have honce : f.injectBy chain fallback t = ⟨t, .anchorNotFound⟩ := hinject
    simp only [honce]
    exact ⟨trivial, .inr trivial⟩
  · have hin : m <:+: (f.injectBy chain fallback t).text := by
      refine (h a ha).trans ?_
      rw [show f.injectBy chain fallback t = _ from hinject]
      exact reindent_infix_splice ..
    simp only [injectBy_of_holds hscope hm hin]
    exact ⟨trivial, .inl trivial⟩

/-! ### Markers on one line -/

theorem mem_withMarkers {markers : List Text} (hm : m ∈ markers) (hne : m.trim ≠ []) (f : Fragment) :
    m.trim ∈ (f.withMarkers markers).markers := by
  unfold withMarkers
  refine List.mem_filter.mpr ⟨List.mem_map_of_mem hm, ?_⟩
  simpa using hne

/-- A marker on one line of the fragment is in the text after an insertion, and the fragment is found
again; without an insertion the text stays as it is. -/
theorem marker_found_again (hscope : f.scope = none) {markers : List Text} (hm : m ∈ markers)
    (hne : m.trim ≠ []) {l : Text} (hl : l ∈ f.text.lines) (hin : m.trim <:+: l)
    (chain : List Recognizer) (fallback : Option Recognizer) (t : Text) :
    let once := (f.withMarkers markers).injectBy chain fallback t
    ((∃ name, once.outcome = .inserted name) → m.trim <:+: once.text ∧
      (f.withMarkers markers).injectBy chain fallback once.text = ⟨once.text, .alreadyPresent⟩) ∧
    ((∀ name, once.outcome ≠ .inserted name) → once.text = t) := by
  have hmarker := mem_withMarkers hm hne f
  have htight : Tight m.trim := Text.tight_trim fun hblank => hne (Text.trim_of_isBlank hblank)
  have hnl : '\n' ∉ m.trim := fun h => Text.newline_notMem_of_mem_lines hl (hin.subset h)
  have htext : m.trim <:+: f.text := hin.trans (Text.infix_of_mem_lines hl)
  intro once
  obtain ⟨-, h⟩ | ⟨-, h⟩ | ⟨a, -, h⟩ :=
    inject_cases (f.withMarkers markers) (resolve? chain t) fallback t
  · have honce : once = ⟨t, .alreadyPresent⟩ := h
    rw [honce]
    exact ⟨fun ⟨name, hname⟩ => by simp at hname, fun _ => rfl⟩
  · have honce : once = ⟨t, .anchorNotFound⟩ := h
    rw [honce]
    exact ⟨fun ⟨name, hname⟩ => by simp at hname, fun _ => rfl⟩
  · have honce : once.outcome = .inserted a.recognizer := congrArg Injection.outcome h
    have hin : m.trim <:+: once.text := by
      refine (Text.infix_reindent htight hnl htext a.place.indent).trans ?_
      rw [show once = _ from h]
      exact reindent_infix_splice ..
    refine ⟨fun _ => ⟨hin, ?_⟩, fun hnone => absurd honce (hnone a.recognizer)⟩
    exact injectBy_of_holds (f := f.withMarkers markers) hscope hmarker hin chain fallback

/-- Two lines, a marker on the second one, and an anchor on an indented line. -/
theorem marker_found_again_secondLine :
    let f := ofText "pair" "a(\n  b)".toList
    let chain : List Recognizer := [⟨"x", .statementLine, .firstLineWith [['x']]⟩]
    let once := (f.withMarkers [" b".toList]).injectBy chain none "\tx".toList
    f.scope = none ∧ Text.trim " b".toList ≠ [] ∧ "  b)".toList ∈ f.text.lines ∧
      Text.trim " b".toList <:+: "  b)".toList ∧ once.outcome = .inserted "x" ∧
      Text.trim " b".toList <:+: once.text ∧
      (f.withMarkers [" b".toList]).injectBy chain none once.text = ⟨once.text, .alreadyPresent⟩ := by
  intro f chain once
  have hne : Text.trim " b".toList ≠ [] := by decide
  have hl : "  b)".toList ∈ f.text.lines := by decide
  have hin : Text.trim " b".toList <:+: "  b)".toList := by decide
  have honce : once.outcome = .inserted "x" := by decide
  obtain ⟨hinserted, -⟩ := marker_found_again (f := f) rfl (List.mem_singleton_self _) hne hl hin
    chain none "\tx".toList
  exact ⟨rfl, hne, hl, hin, honce, hinserted ⟨"x", honce⟩⟩

/-! ### The text as its own marker -/

theorem mem_markers_ofText (name : String) (text : Text) : text.trim ∈ (ofText name text).markers :=
  List.mem_singleton_self _

theorem isPresent_ofText_iff {name : String} : (ofText name text).isPresent t ↔ text.trim <:+: t := by
  unfold isPresent
  rw [List.any_eq_true]
  constructor
  · rintro ⟨m, hm, h⟩
    obtain rfl := List.mem_singleton.mp hm
    exact Text.occursIn_iff.mp h
  · exact fun h => ⟨_, mem_markers_ofText name text, Text.occursIn_iff.mpr h⟩

/-- A fragment that rests is found in the text, if there is an anchor in it. -/
theorem isPresent_of_rests (h : f.Rests chain fallback t)
    (hanchor : resolve? chain (f.injectBy chain fallback t).text ≠ none) :
    f.isPresent (f.injectBy chain fallback t).text := by
  obtain ⟨-, h⟩ := h
  obtain ⟨hpresent, -⟩ | ⟨hnone, -⟩ | ⟨a, -, hinject⟩ := inject_cases f
    (resolve? chain (f.injectBy chain fallback t).text) fallback (f.injectBy chain fallback t).text
  · exact hpresent
  · obtain ⟨a, ha⟩ := Option.ne_none_iff_exists'.mp hanchor
    rw [ha, Option.orElse_some] at hnone
    exact absurd hnone (Option.some_ne_none a)
  · have : (f.injectBy chain fallback (f.injectBy chain fallback t).text).outcome =
        .inserted a.recognizer := congrArg Injection.outcome hinject
    rw [this] at h
    simp at h

/-- The place behind the first line, whatever it looks like. -/
def behindFirstLine : Recognizer := ⟨"first-line", .statementLine, .firstLineWith [[]]⟩

theorem resolve?_behindFirstLine {p : Text} {ps : List Text} (h : t.pieces = p :: ps) :
    resolve? [behindFirstLine] t =
      some ⟨.statementLine, "first-line", Locator.afterPiece 0 p⟩ := by
  refine resolve?_cons_of_find? (r := behindFirstLine) ?_
  unfold behindFirstLine Locator.find?
  rw [h, Locator.piecesFrom, List.find?_cons_of_pos rfl, Option.map_some]

theorem resolve?_behindFirstLine_ne_none (ht : t ≠ []) : resolve? [behindFirstLine] t ≠ none := by
  cases hp : t.pieces with
  | nil => exact absurd (Text.pieces_eq_nil_iff.mp hp) ht
  | cons p ps => simp [resolve?_behindFirstLine hp]

/-- Behind a line of one character a fragment gets the indentation of that line. -/
theorem exists_injectBy_behindFirstLine {c : Char} (hindent : indent.all isIndent)
    (hc : Graft.isBlank c = false) (h : f.isPresent (indent ++ [c]) = false) :
    (∀ a, anchor? [behindFirstLine] none (indent ++ [c]) = some a → a.place.indent = indent) ∧
      ∃ lead, lead.all (· = '\n') ∧ (f.injectBy [behindFirstLine] none (indent ++ [c])).text =
        indent ++ c :: inset lead indent f.text := by
  have hline : '\n' ∉ indent ++ [c] := by
    rw [List.mem_append, List.mem_singleton, not_or]
    refine ⟨fun hmem => absurd (List.all_eq_true.mp hindent _ hmem) (by decide), ?_⟩
    rintro rfl
    exact absurd hc (by decide)
  have hplace := resolve?_behindFirstLine (Text.pieces_singleton hline (by simp))
  have hat : PlaceAt (indent ++ [c]) (indent ++ [c]) [] (Locator.afterPiece 0 (indent ++ [c])) :=
    ⟨(List.append_nil _).symm, Nat.zero_add _, all_leadingIndent _⟩
  have hleading : (Locator.afterPiece 0 (indent ++ [c])).indent = indent :=
    leadingIndent_append hindent fun d hd => by
      obtain rfl := Option.some.inj hd
      exact Bool.eq_false_iff.mpr fun hd => by simp [isBlank_of_isIndent hd] at hc
  obtain ⟨lead, hspliced⟩ := exists_spliced hat (.inr (.inr fun d hd => by simp at hd)) f.text
    f.blankLineBefore
  refine ⟨fun a ha => ?_, lead, hspliced.newlines, ?_⟩
  · unfold anchor? at ha
    rw [hplace, Option.orElse_some] at ha
    rw [← Option.some.inj ha, hleading]
  · have htarget := hspliced.target
    unfold injectBy
    rw [inject_some h (by rw [hplace, Option.orElse_some]), htarget, hleading]
    simp

/-- A tight word with another first character than `c` does not start before it. -/
theorem infix_of_infix_append_cons {c : Char} {w s : Text} (hw : Tight w) (hc : w.head? ≠ some c)
    (hindent : Text.isBlank indent) (h : w <:+: indent ++ c :: s) : w <:+: s := by
  obtain h | h := List.infix_cons_iff.mp (hw.infix_of_blank_append hindent h)
  · obtain ⟨d, v, rfl, -⟩ := hw.exists_head
    obtain ⟨rfl, -⟩ := List.cons_prefix_cons.mp h
    exact absurd rfl hc
  · exact h

theorem exists_visible_ne_head (w : Text) :
    ∃ c, Graft.isBlank c = false ∧ w.head? ≠ some c := by
  by_cases h : w.head? = some 'x'
  · exact ⟨'y', by decide, by rw [h]; decide⟩
  · exact ⟨'x', by decide, h⟩

/-- A fragment that rests wherever it gets the indentation `indent` comes back from it. -/
theorem trim_reindent_of_rests {name : String} (htext : ¬Text.isBlank text)
    (hindent : indent.all isIndent)
    (h : ∀ chain fallback t, (∀ a, anchor? chain fallback t = some a → a.place.indent = indent) →
      (ofText name text).Rests chain fallback t) :
    (Text.reindent text indent).trim = text.trim := by
  have hw : Tight text.trim := Text.tight_trim htext
  have hblank : Text.isBlank indent := isBlank_of_all_isIndent hindent
  obtain ⟨c, hc, hhead⟩ := exists_visible_ne_head text.trim
  -- the fragment can only be found in what has come in, for the line before it starts with `c`
  have habsent : (ofText name text).isPresent (indent ++ [c]) = false := by
    rw [Bool.eq_false_iff, ne_eq, isPresent_ofText_iff]
    intro hin
    exact hw.ne_nil (List.infix_nil.mp (infix_of_infix_append_cons hw hhead hblank hin))
  obtain ⟨hanchor, lead, hlead, htarget⟩ := exists_injectBy_behindFirstLine hindent hc habsent
  have hpresent := isPresent_of_rests (h [behindFirstLine] none (indent ++ [c]) hanchor) (by
    rw [htarget]
    exact resolve?_behindFirstLine_ne_none (by simp))
  rw [htarget, isPresent_ofText_iff] at hpresent
  have hin := infix_of_infix_append_cons hw hhead hblank hpresent
  unfold inset at hin
  rw [List.append_assoc] at hin
  have hblankLead : Text.isBlank lead := Text.isBlank_of_newlines hlead
  refine Text.trim_eq_of_squeeze hw ?_ (by rw [Text.squeeze_reindent hindent, Text.squeeze_trim])
  exact hw.infix_of_append_blank (b := ['\n']) rfl (hw.infix_of_blank_append hblankLead hin)

/-- A fragment without markers of its own rests wherever it gets an indentation exactly when its text
comes back from that indentation, white space around it aside, and it rests everywhere exactly when
it is one line. -/
theorem rests_ofText_iff (name : String) (htext : ¬Text.isBlank text) :
    (∀ indent, indent.all isIndent →
      ((∀ chain fallback t,
          (∀ a, anchor? chain fallback t = some a → a.place.indent = indent) →
          (ofText name text).Rests chain fallback t) ↔
        (Text.reindent text indent).trim = text.trim)) ∧
      ((∀ chain fallback t, (ofText name text).Rests chain fallback t) ↔ '\n' ∉ text.trim) := by
  have hw : Tight text.trim := Text.tight_trim htext
  obtain ⟨u, v, htrim, -, -⟩ := Text.exists_trim text
  refine ⟨fun indent hindent => ⟨trim_reindent_of_rests htext hindent, fun h => ?_⟩, fun h => ?_,
    fun hnl => ?_⟩
  · intro chain fallback t ha
    refine rests_of_holds rfl (mem_markers_ofText name text) fun a hsome => ?_
    obtain ⟨x, y, e, -, -⟩ := Text.exists_trim (Text.reindent text indent)
    rw [ha a hsome]
    exact ⟨x, y, by rw [← h]; exact e.symm⟩
  · refine (Text.trim_reindent_iff htext).mp fun indent hindent => ?_
    exact trim_reindent_of_rests htext hindent fun chain fallback t _ => h chain fallback t
  · intro chain fallback t
    refine rests_of_holds rfl (mem_markers_ofText name text) fun a _ => ?_
    exact Text.infix_reindent hw hnl ⟨u, v, htrim.symm⟩ a.place.indent

theorem rests_ofText_iff_twoLines : ¬Text.isBlank "a\nb".toList ∧
    ¬∀ chain fallback t, (ofText "f" "a\nb".toList).Rests chain fallback t :=
  ⟨by decide, fun h => (rests_ofText_iff "f" (by decide)).2.mp h (by decide)⟩

/-- Behind an indented line two lines come in twice. -/
theorem not_rests_twoLines : ¬Text.isBlank "a\nb".toList ∧
    ¬(ofText "f" "a\nb".toList).Rests [⟨"x", .statementLine, .firstLineWith [['x']]⟩] none
      "  x\n".toList := by
  decide

end Fragment

end Graft
