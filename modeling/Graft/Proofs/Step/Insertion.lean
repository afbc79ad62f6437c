import Graft.Proofs.Fragment
import Graft.Step.Insertion

/-! # Steps that insert

What steps that insert lines or a fragment do to a text: nothing, or an insertion at the place of
their anchor (`LinesStep.apply_of_missing`, `InsertionStep.exists_insertion`). -/

namespace Graft

open Text (Break Body Full Insertion HasLine LineWord)
open Brace (Free)

variable {t p q : Text} {ls : List Text}

/-! ### Lines -/

namespace LinesStep

variable {s : LinesStep}

theorem apply_fst (s : LinesStep) (t : Text) (sink : Sink) :
    (s.apply t sink).1 = (ensureLines (s.linesFor t) s.alternates s.chain t).text := by
  rw [apply]
  split <;> rfl

theorem apply_of_present (hls : ∀ l ∈ s.linesFor t, LineWord l)
    (h : (∃ a ∈ s.alternates, a ≠ [] ∧ a <:+: t) ∨ ∀ l ∈ s.linesFor t, HasLine l t) (sink : Sink) :
    (s.apply t sink).1 = t := by
  rw [apply_fst, ensureLines_of_present hls h]

/-- Lines that are missing come in at the place of the anchor. -/
theorem apply_of_missing (hls : ∀ l ∈ s.linesFor t, LineWord l)
    (halt : ∀ a ∈ s.alternates, ¬a <:+: t) (hmissing : ∃ l ∈ s.linesFor t, ¬HasLine l t)
    {a : Anchor} (ha : resolve? s.chain t = some a) (hat : PlaceAt t p q a.place)
    (hbreak : Break p q) (sink : Sink) :
    ∃ new lead, (∀ l, l ∈ new ↔ l ∈ s.linesFor t ∧ ¬HasLine l t) ∧
      Insertion new p lead a.place.indent q t (s.apply t sink).1 := by
  rw [apply_fst]
  exact ensureLines_of_missing hls halt hmissing ha hat hbreak

end LinesStep

/-! ### Fragments -/

namespace InsertionStep

/-- The anchor at which the fragment would be inserted. -/
def anchor? (s : InsertionStep) (t : Text) : Option Anchor :=
  (resolve? s.chain t).orElse fun _ => s.scopeEnd.bind (·.recognize? t)

/-- The fragment consists of the lines `ls`, and the recognizers find breaks. -/
structure Proper (s : InsertionStep) (ls : List Text) : Prop where
  text : s.fragment.text = Text.joinLines ls
  body : Body ls
  chain : ProperChain s.chain
  scopeEnd : ∀ r ∈ s.scopeEnd, r.locator.Proper

variable {s : InsertionStep}

theorem apply_of_isPresent (h : s.fragment.isPresent t) (sink : Sink) :
    s.apply t sink = (t, sink) := by
  rw [apply, if_pos h]

theorem apply_of_missing (h : (s.missingScope? t).isSome) (sink : Sink) :
    (s.apply t sink).1 = t := by
  obtain ⟨what, hwhat⟩ := Option.isSome_iff_exists.mp h
  rw [apply, hwhat]
  split <;> rfl

theorem apply_of_anchor (hpresent : s.fragment.isPresent t = false)
    (hscope : s.missingScope? t = none) (sink : Sink) :
    (s.apply t sink).1 = (s.anchor? t).elim t fun a =>
      splice t a.place.insertAt s.fragment.text a.place.indent s.fragment.blankLineBefore := by
  rw [apply, if_neg (by simp [hpresent]), hscope]
  simp only [anchor?]
  cases hanchor : (resolve? s.chain t).orElse fun _ => s.scopeEnd.bind (·.recognize? t) with
  | none => simp only [inject, hpresent, hanchor, Bool.false_eq_true, if_false, Option.elim_none]
  | some a => rw [inject_some hpresent hanchor, Option.elim_some]

theorem exists_break_of_anchor? (hp : s.Proper ls) {a : Anchor} (h : s.anchor? t = some a) :
    ∃ p q, PlaceAt t p q a.place ∧ Break p q := by
  rw [anchor?, Option.orElse_eq_or, Option.or_eq_some_iff] at h
  rcases h with h | ⟨-, h⟩
  · exact exists_break_of_resolve? hp.chain h
  · obtain ⟨r, hr, hrec⟩ := Option.bind_eq_some_iff.mp h
    exact Locator.exists_break (hp.scopeEnd r hr) (find?_of_recognize? hrec)

/-- The fragment comes in at the place of the anchor. -/
theorem exists_insertion (hp : s.Proper ls) (hpresent : s.fragment.isPresent t = false)
    (hscope : s.missingScope? t = none) {a : Anchor} (ha : s.anchor? t = some a)
    (hat : PlaceAt t p q a.place) (hbreak : Break p q) (sink : Sink) :
    ∃ lead, Insertion ls p lead a.place.indent q t (s.apply t sink).1 := by
  rw [apply_of_anchor hpresent hscope, ha, hp.text, Option.elim_some]
  exact exists_insertion_splice hat hbreak hp.body _

end InsertionStep

end Graft
