import Graft.Fragment
import Graft.Proofs.Anchor
import Graft.Proofs.Text.Splice
import Graft.Proofs.Text.WholeLine

/-! # Injections

`inject` leaves a text as it is or inserts the lines of the fragment at the place of the anchor
(`inject_cases`).  `ensureLines` inserts the lines that are missing, so that afterwards the text has
them all (`ensureLines_hasLine`). -/

namespace Graft

open Text (AtLineStart Break Body Full Insertion Spliced HasLine LineWord)
open Brace (Free)

variable {t t' p q : Text} {place : Place} {ls : List Text} {f : Fragment} {chain : List Recognizer}

/-! ### Splicing -/

/-- What is spliced in at a break stands on lines of its own. -/
theorem exists_spliced (hat : PlaceAt t p q place) (hbreak : Break p q) (piece : Text)
    (blank : Bool) :
    ∃ lead, Spliced piece p lead place.indent q t
      (splice t place.insertAt piece place.indent blank) := by
  have htake : t.take place.insertAt = p := by
    rw [hat.insertAt_eq, hat.split, List.take_left]
  have hdrop : t.drop place.insertAt = q := by
    rw [hat.insertAt_eq, hat.split, List.drop_left]
  have hlead : ∀ nl bl : Text, (nl = [] ∧ AtLineStart p ∨ nl = ['\n']) → (bl = [] ∨ bl = ['\n']) →
      (nl ++ bl).all (· = '\n') ∧ AtLineStart (p ++ (nl ++ bl)) := by
    rintro nl bl (⟨rfl, hp⟩ | rfl) (rfl | rfl)
    · exact ⟨rfl, by simpa using hp⟩
    · exact ⟨rfl, Text.atLineStart_newline p⟩
    · exact ⟨rfl, Text.atLineStart_newline p⟩
    · refine ⟨rfl, ?_⟩
      rw [← List.append_assoc]
      exact Text.atLineStart_newline _
  obtain ⟨hall, hstart⟩ := hlead
    (if p.isEmpty || p.getLast? = some '\n' then [] else ['\n'])
    (if !blank || p.isEmpty || ['\n', '\n'].isSuffixOf p then [] else ['\n'])
    (by
      split
      · next h =>
          rw [Bool.or_eq_true, List.isEmpty_iff, decide_eq_true_eq] at h
          exact .inl ⟨rfl, h⟩
      · exact .inr rfl)
    (by split <;> simp)
  refine ⟨_, hat.split, ?_, hbreak, hall, hstart, hat.allIndent⟩
  simp only [splice, htake, hdrop, Text.inset]
  simp only [List.append_assoc, List.cons_append, List.nil_append]

theorem exists_insertion_splice (hat : PlaceAt t p q place) (hbreak : Break p q) (hls : Body ls)
    (blank : Bool) :
    ∃ lead, Insertion ls p lead place.indent q t
      (splice t place.insertAt (Text.joinLines ls) place.indent blank) := by
  obtain ⟨lead, hspliced⟩ := exists_spliced hat hbreak (Text.joinLines ls) blank
  exact ⟨lead, hspliced.insertion hls⟩

/-! ### Anchors -/

/-- Chains of recognizers that find breaks. -/
def ProperChain (chain : List Recognizer) : Prop := ∀ r ∈ chain, r.locator.Proper

theorem exists_mem_of_resolve? {a : Anchor} (h : resolve? chain t = some a) :
    ∃ r ∈ chain, r.recognize? t = some a := List.exists_of_findSome?_eq_some h

theorem find?_of_recognize? {r : Recognizer} {a : Anchor} (h : r.recognize? t = some a) :
    r.locator.find? t = some a.place := by
  obtain ⟨place, hplace, rfl⟩ := Option.map_eq_some_iff.mp h
  exact hplace

theorem recognize?_of_find? {r : Recognizer} {place : Place} (h : r.locator.find? t = some place) :
    r.recognize? t = some ⟨r.kind, r.name, place⟩ := by
  rw [Recognizer.recognize?, h, Option.map_some]

theorem resolve?_cons_of_find? {r : Recognizer} {place : Place}
    (h : r.locator.find? t = some place) :
    resolve? (r :: chain) t = some ⟨r.kind, r.name, place⟩ :=
  (List.findSome?_cons_of_isSome (by rw [recognize?_of_find? h]; rfl)).trans
    (recognize?_of_find? h)

theorem resolve?_cons_of_none {r : Recognizer} (h : r.locator.find? t = none) :
    resolve? (r :: chain) t = resolve? chain t :=
  List.findSome?_cons_of_isNone (by rw [Recognizer.recognize?, h]; rfl)

theorem exists_break_of_resolve? (hchain : ProperChain chain) {a : Anchor}
    (h : resolve? chain t = some a) : ∃ p q, PlaceAt t p q a.place ∧ Break p q := by
  obtain ⟨r, hr, hrec⟩ := exists_mem_of_resolve? h
  exact Locator.exists_break (hchain r hr) (find?_of_recognize? hrec)

/-- A chain of recognizers of line starts, one of them that of the file, finds a line start. -/
theorem exists_atLine_of_fileStart (hlines : ∀ r ∈ chain, r.locator.OnLines)
    (hstart : ∃ r ∈ chain, r.locator = .fileStart) (t : Text) :
    ∃ a p q, resolve? chain t = some a ∧ PlaceAt t p q a.place ∧ AtLine p q := by
  have hsome : (resolve? chain t).isSome := by
    obtain ⟨r, hr, hloc⟩ := hstart
    rw [resolve?, List.findSome?_isSome_iff]
    exact ⟨r, hr, by rw [Recognizer.recognize?, hloc]; rfl⟩
  obtain ⟨a, ha⟩ := Option.isSome_iff_exists.mp hsome
  obtain ⟨r, hr, hrec⟩ := exists_mem_of_resolve? ha
  obtain ⟨p, q, hat, hline⟩ := Locator.exists_atLine (hlines r hr).betweenLines (find?_of_recognize? hrec)
  exact ⟨a, p, q, ha, hat, hline⟩

/-! ### Injecting -/

theorem inject_of_isPresent (h : f.isPresent t) (anchor : Option Anchor)
    (fallback : Option Recognizer) : inject f anchor fallback t = ⟨t, .alreadyPresent⟩ := by
  rw [inject, if_pos h]

theorem inject_none (h : f.isPresent t = false) {fallback : Option Recognizer}
    (hfallback : fallback.bind (·.recognize? t) = none) :
    inject f none fallback t = ⟨t, .anchorNotFound⟩ := by
  rw [inject, if_neg (by simp [h]), Option.orElse_none, hfallback]

theorem inject_some (h : f.isPresent t = false) {a : Anchor} {anchor : Option Anchor}
    {fallback : Option Recognizer}
    (ha : (anchor.orElse fun _ => fallback.bind (·.recognize? t)) = some a) :
    inject f anchor fallback t =
      ⟨splice t a.place.insertAt f.text a.place.indent f.blankLineBefore,
        .inserted a.recognizer⟩ := by
  rw [inject, if_neg (by simp [h]), ha]

/-- The fragment is there, or there is no place for it, or its lines come in at the anchor. -/
theorem inject_cases (f : Fragment) (anchor : Option Anchor) (fallback : Option Recognizer)
    (t : Text) :
    (f.isPresent t ∧ inject f anchor fallback t = ⟨t, .alreadyPresent⟩) ∨
      ((anchor.orElse fun _ => fallback.bind (·.recognize? t)) = none ∧
        inject f anchor fallback t = ⟨t, .anchorNotFound⟩) ∨
      ∃ a, (anchor.orElse fun _ => fallback.bind (·.recognize? t)) = some a ∧
        inject f anchor fallback t =
          ⟨splice t a.place.insertAt f.text a.place.indent f.blankLineBefore,
            .inserted a.recognizer⟩ := by
  by_cases h : f.isPresent t
  · exact .inl ⟨h, inject_of_isPresent h anchor fallback⟩
  · cases ha : anchor.orElse fun _ => fallback.bind (·.recognize? t) with
    | none => exact .inr (.inl ⟨rfl, by rw [inject, if_neg h, ha]⟩)
    | some a => exact .inr (.inr ⟨a, rfl, inject_some (Bool.eq_false_iff.mpr h) ha⟩)

/-! ### Missing lines -/

theorem map_trim_of_lineWords (h : ∀ l ∈ ls, LineWord l) : ls.map Text.trim = ls := by
  conv => rhs; rw [← List.map_id ls]
  exact List.map_congr_left fun l hl => (h l hl).trim_eq

theorem mem_newLines {seen ls : List Text} {l : Text} :
    l ∈ newLines seen ls ↔ l ∈ ls ∧ l ≠ [] ∧ l ∉ seen := by
  induction ls generalizing seen with
  | nil => simp [newLines]
  | cons m ls ih =>
      rw [newLines]
      split
      · next h =>
          rw [Bool.or_eq_true, List.isEmpty_iff, List.contains_iff_mem] at h
          rw [ih, List.mem_cons]
          constructor
          · rintro ⟨hl, h0, hseen⟩
            exact ⟨.inr hl, h0, hseen⟩
          · rintro ⟨rfl | hl, h0, hseen⟩
            · exact (h.elim h0 hseen).elim
            · exact ⟨hl, h0, hseen⟩
      · next h =>
          rw [Bool.or_eq_true, List.isEmpty_iff, List.contains_iff_mem, not_or] at h
          rw [List.mem_cons, ih, List.mem_cons, List.mem_cons, not_or]
          constructor
          · rintro (rfl | ⟨hl, h0, -, hseen⟩)
            · exact ⟨.inl rfl, h⟩
            · exact ⟨.inr hl, h0, hseen⟩
          · rintro ⟨rfl | hl, h0, hseen⟩
            · exact .inl rfl
            · by_cases e : l = m
              · exact .inl e
              · exact .inr ⟨hl, h0, e, hseen⟩

theorem newLines_singleton {seen : List Text} {l : Text} (h : newLines seen [l] ≠ []) :
    newLines seen [l] = [l] := by
  unfold newLines at h ⊢
  split
  · next hseen =>
      rw [if_pos hseen] at h
      exact absurd rfl h
  · rfl

/-- The text stays as it is, or the lines that are missing come in, whatever they look like. -/
theorem ensureLines_cases (ls alternates : List Text) {a : Anchor} (ha : resolve? chain t = some a)
    (hat : PlaceAt t p q a.place) (hbreak : Break p q) :
    (ensureLines ls alternates chain t).text = t ∨
      ∃ new lead, new = newLines (t.lines.map Text.trim) (ls.map Text.trim) ∧ new ≠ [] ∧
        Spliced (Text.joinLines new) p lead a.place.indent q t
          (ensureLines ls alternates chain t).text := by
  unfold ensureLines
  split
  · exact .inl rfl
  · simp only
    split
    · exact .inl rfl
    · next hne =>
        obtain ⟨lead, hspliced⟩ := exists_spliced hat hbreak
          (Text.joinLines (newLines (t.lines.map Text.trim) (ls.map Text.trim))) false
        rw [inject_some rfl (by rw [ha]; rfl)]
        exact .inr ⟨_, lead, rfl, by simpa using hne, hspliced⟩

/-- Nothing is missing. -/
theorem ensureLines_of_present {alternates : List Text} (hls : ∀ l ∈ ls, LineWord l)
    (h : (∃ a ∈ alternates, a ≠ [] ∧ a <:+: t) ∨ ∀ l ∈ ls, HasLine l t) :
    ensureLines ls alternates chain t = ⟨t, .alreadyPresent⟩ := by
  rw [ensureLines]
  split
  · rfl
  · next hany =>
      rcases h with ⟨a, ha, hne, hin⟩ | h
      · refine absurd (List.any_eq_true.mpr ⟨a, ha, ?_⟩) hany
        rw [Text.occursIn_iff.mpr hin, Bool.and_true, Bool.not_eq_true', List.isEmpty_eq_false_iff]
        exact hne
      · refine if_pos ?_
        rw [List.isEmpty_iff, List.eq_nil_iff_forall_not_mem]
        intro l hl
        rw [map_trim_of_lineWords hls, mem_newLines] at hl
        exact hl.2.2 (h l hl.1)

/-- The lines that are missing come in when no alternative stands for them. -/
theorem ensureLines_text {alternates new : List Text} (halt : ∀ a ∈ alternates, ¬a <:+: t)
    (hnew : newLines (t.lines.map Text.trim) (ls.map Text.trim) = new) (hne : new ≠ []) {a : Anchor}
    (ha : resolve? chain t = some a) : (ensureLines ls alternates chain t).text =
      splice t a.place.insertAt (Text.joinLines new) a.place.indent false := by
  have hany : ¬alternates.any (fun a => !a.isEmpty && a.occursIn t) := by
    rw [List.any_eq_true]
    rintro ⟨a, ha, h⟩
    rw [Bool.and_eq_true] at h
    exact halt a ha (Text.occursIn_iff.mp h.2)
  rw [ensureLines, hnew, if_neg hany, if_neg (by simpa using hne),
    inject_some rfl (by rw [ha]; rfl)]
  rfl

/-- Those lines come in that are missing. -/
theorem ensureLines_of_missing {alternates : List Text} (hls : ∀ l ∈ ls, LineWord l)
    (halt : ∀ a ∈ alternates, ¬a <:+: t) (hmissing : ∃ l ∈ ls, ¬HasLine l t) {a : Anchor}
    (ha : resolve? chain t = some a) (hat : PlaceAt t p q a.place) (hbreak : Break p q) :
    ∃ new lead, (∀ l, l ∈ new ↔ l ∈ ls ∧ ¬HasLine l t) ∧
      Insertion new p lead a.place.indent q t (ensureLines ls alternates chain t).text := by
  have hmem : ∀ l, l ∈ newLines (t.lines.map Text.trim) (ls.map Text.trim) ↔
      l ∈ ls ∧ ¬HasLine l t := by
    intro l
    rw [map_trim_of_lineWords hls, mem_newLines]
    exact ⟨fun h => ⟨h.1, h.2.2⟩, fun h => ⟨h.1, (hls l h.1).ne_nil, h.2⟩⟩
  obtain ⟨l, hl⟩ := hmissing
  have hne : newLines (t.lines.map Text.trim) (ls.map Text.trim) ≠ [] :=
    List.ne_nil_of_mem ((hmem l).mpr hl)
  obtain ⟨lead, hins⟩ := exists_insertion_splice hat hbreak
    (Text.body_of_lineWords (fun l hl => hls l ((hmem l).mp hl).1) hne) false
  refine ⟨_, lead, hmem, ?_⟩
  rw [ensureLines_text halt rfl hne ha]
  exact hins

/-- A single line that is missing comes in. -/
theorem ensureLines_of_missing_line {alternates : List Text} {l : Text} (hl : LineWord l)
    (halt : ∀ a ∈ alternates, ¬a <:+: t) (hmissing : ¬HasLine l t) {a : Anchor}
    (ha : resolve? chain t = some a) (hat : PlaceAt t p q a.place) (hbreak : Break p q) :
    ∃ lead, Insertion [l] p lead a.place.indent q t (ensureLines [l] alternates chain t).text := by
  have hnew : newLines (t.lines.map Text.trim) ([l].map Text.trim) = [l] := by
    have hseen : (t.lines.map Text.trim).contains l = false := by
      rw [← Bool.not_eq_true, List.contains_iff_mem]
      exact hmissing
    rw [List.map_singleton, hl.trim_eq, newLines, hseen, List.isEmpty_eq_false_iff.mpr hl.ne_nil]
    rfl
  have hbody : Body [l] := Text.body_of_lineWords (by simpa using hl) (by simp)
  obtain ⟨lead, hins⟩ := exists_insertion_splice hat hbreak hbody false
  refine ⟨lead, ?_⟩
  rw [ensureLines_text halt hnew (List.cons_ne_nil l []) ha]
  exact hins

/-- Then the text has them all. -/
theorem hasLine_of_missing {lead indent t' : Text} {new : List Text} (hls : ∀ l ∈ ls, LineWord l)
    (hfree : ∀ l ∈ ls, Free l) (hmem : ∀ l, l ∈ new ↔ l ∈ ls ∧ ¬HasLine l t)
    (hins : Insertion new p lead indent q t t') {l : Text} (hl : l ∈ ls) : HasLine l t' := by
  by_cases h : HasLine l t
  · exact hins.hasLine (hls l hl) (hfree l hl) h
  · exact hins.hasLine_of_mem (fun l hl => (hls l ((hmem l).mp hl).1).full) (hls l hl)
      ((hmem l).mpr ⟨hl, h⟩)

end Graft
