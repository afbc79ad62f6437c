import Graft.Block.Assignment
import Graft.Proofs.Block.Ensure
import Graft.Proofs.Pattern.All

/-! # Lines that assign

The lines that assign to a key are met one after the other, and none of them reaches into the line
of the assignment that a block should hold (`LineAt.over`).  So that line is found wherever it
stands (`HoldsLine.exists_mem`).  Whatever line is replaced, its indentation is group 1 of the match
(`Indented`). -/

namespace Graft

open Text (AtLineStart LineEnds Stops OneLine Clear Tight)
open Brace (Free isBalanced)
open Pattern

variable {name w p q u b ind before old new after inner t : Text}

/-! ### Lines that assign -/

namespace BlockAssignment

variable {a : BlockAssignment}

/-- The block has a name of one word, and the field is a line that assigns to the key. -/
structure Proper (a : BlockAssignment) : Prop where
  block : Word a.block
  solid : Solid a.field
  assigns : ∃ c k g v, a.key = c :: k ∧ Graft.isBlank c = false ∧ c ≠ '=' ∧ Text.isBlank g ∧
    a.field = a.key ++ g ++ '=' :: v

theorem spans_assigning {key : Text} :
    (assigning key).Spans p u b ↔ LineEnds b ∧ ∃ g v, Text.isBlank g ∧ '\n' ∉ v ∧
      u = key ++ g ++ '=' :: v := by
  simp only [assigning, spans_seq, spans_ofText, spans_lit, spans_blanks, spans_restOfLine,
    spans_assert]
  constructor
  · rintro ⟨_, _, rfl, ⟨_, v, rfl, ⟨_, _, rfl, ⟨_, g, rfl, rfl, hg⟩, rfl⟩, hv⟩, rfl, hend⟩
    exact ⟨holds_lineEnd.mp hend, g, v, hg, hv, by simp⟩
  · rintro ⟨hend, g, v, hg, hv, rfl⟩
    exact ⟨_, [], by simp, ⟨_, v, rfl, ⟨_, _, rfl, ⟨_, g, rfl, rfl, hg⟩, rfl⟩, hv⟩, rfl,
      holds_lineEnd.mpr hend⟩

theorem spans_active :
    a.active.Spans p u b ↔ AtLineStart p ∧ LineEnds b ∧ ∃ ind g v, ind.all isIndent ∧
      Text.isBlank g ∧ '\n' ∉ v ∧ u = ind ++ (a.key ++ g ++ '=' :: v) := by
  simp only [active, spans_seq, spans_group, spans_indent, spans_assert, spans_assigning]
  constructor
  · rintro ⟨_, _, rfl, ⟨_, ind, rfl, ⟨rfl, hline⟩, hind⟩, hend, g, v, hg, hv, rfl⟩
    exact ⟨holds_lineStart.mp hline, hend, ind, g, v, hind, hg, hv, rfl⟩
  · rintro ⟨hline, hend, ind, g, v, hind, hg, hv, rfl⟩
    exact ⟨ind, _, rfl, ⟨[], ind, rfl, ⟨rfl, holds_lineStart.mpr hline⟩, hind⟩, hend, g, v, hg, hv,
      rfl⟩

theorem flat_active (a : BlockAssignment) : a.active.Flat :=
  ⟨⟨trivial, trivial⟩, ⟨⟨⟨⟨flat_ofText _, trivial⟩, flat_ofText _⟩, trivial⟩, trivial⟩⟩

theorem flat_commented (a : BlockAssignment) : a.commented.Flat :=
  ⟨⟨⟨⟨trivial, trivial⟩, flat_ofText _⟩, trivial⟩,
    ⟨⟨⟨⟨flat_ofText _, trivial⟩, flat_ofText _⟩, trivial⟩, trivial⟩⟩

/-- The line of the assignment, with an indentation, behind `p`. -/
def LineAt (a : BlockAssignment) (inner p ind q : Text) : Prop :=
  inner = p ++ (ind ++ a.field) ++ q ∧ AtLineStart p ∧ LineEnds q ∧ ind.all isIndent

/-- The text has the line of the assignment. -/
def HoldsLine (a : BlockAssignment) (inner : Text) : Prop := ∃ p ind q, a.LineAt inner p ind q

theorem Proper.tight_field (ha : a.Proper) : Tight a.field := by
  obtain ⟨c, k, g, v, hkey, hc, -, -, hfield⟩ := ha.assigns
  refine ⟨?_, ha.solid.2.2⟩
  rw [hfield, hkey]
  simp [hc]

theorem LineAt.spans (h : a.LineAt inner p ind q) (ha : a.Proper) :
    a.active.Spans p (ind ++ a.field) q := by
  obtain ⟨-, hline, hend, hind⟩ := h
  obtain ⟨c, k, g, v, hkey, -, -, hg, hfield⟩ := ha.assigns
  have hv : '\n' ∉ v := fun hm => ha.solid.1.1 (by rw [hfield]; simp [hm])
  rw [hfield]
  exact spans_active.mpr ⟨hline, hend, ind, g, v, hind, hg, hv, rfl⟩

/-- White space in front of a character that is none ends where that character stands. -/
theorem blank_unique {s s' r r' : Text} {c c' : Char} (hs : Text.isBlank s) (hs' : Text.isBlank s')
    (hc : Graft.isBlank c = false) (hc' : Graft.isBlank c' = false)
    (e : s ++ c :: r = s' ++ c' :: r') : s = s' ∧ c = c' ∧ r = r' := by
  have htake : ∀ {s r : Text} {c : Char}, Text.isBlank s → Graft.isBlank c = false →
      (s ++ c :: r).takeWhile Graft.isBlank = s := by
    intro s r c hs hc
    rw [List.takeWhile_append_of_pos (List.all_eq_true.mp hs), List.takeWhile_cons, hc,
      if_neg Bool.false_ne_true, List.append_nil]
  obtain rfl : s = s' := by rw [← htake hs hc, e, htake hs' hc']
  have e' := List.append_cancel_left e
  exact ⟨rfl, List.cons.inj e'⟩

/-- A line that assigns is the whole line of the assignment if it starts where that does. -/
theorem LineAt.eq_of_spans (h : a.LineAt inner p ind q) (ha : a.Proper)
    (e : inner = p ++ u ++ b) (hu : a.active.Spans p u b) : u = ind ++ a.field := by
  obtain ⟨hsplit, hline, hend, hind⟩ := h
  obtain ⟨c, k, g, v, hkey, hc, hceq, hg, hfield⟩ := ha.assigns
  obtain ⟨-, hend', ind', g', v', hind', hg', hv', rfl⟩ := spans_active.mp hu
  have hv : '\n' ∉ v := fun hm => ha.solid.1.1 (by rw [hfield]; simp [hm])
  have e1 : ind ++ c :: (k ++ (g ++ '=' :: (v ++ q))) =
      ind' ++ c :: (k ++ (g' ++ '=' :: (v' ++ b))) := by
    rw [hsplit, hfield, hkey, List.append_assoc, List.append_assoc] at e
    simpa using e
  obtain ⟨rfl, -, e2⟩ := blank_unique (isBlank_of_all_isIndent hind)
    (isBlank_of_all_isIndent hind') hc hc e1
  obtain ⟨rfl, -, e3⟩ := blank_unique hg hg' (by decide) (by decide) (List.append_cancel_left e2)
  obtain ⟨rfl, -⟩ := hend.unique hend' hv hv' e3
  rw [hfield]

/-- No line that assigns and starts earlier reaches over the start of the line of the
assignment. -/
theorem LineAt.over (h : a.LineAt inner p ind q) (ha : a.Proper) {p' : Text}
    (e : inner = p' ++ u ++ b) (hu : a.active.Spans p' u b) (hlen : p'.length < p.length) :
    p'.length + u.length ≤ p.length := by
  obtain ⟨hsplit, hline, hend, hind⟩ := h
  obtain ⟨c, k, g, v, hkey, hc, hceq, hg, hfield⟩ := ha.assigns
  obtain ⟨-, hend', ind', g', v', hind', hg', hv', rfl⟩ := spans_active.mp hu
  refine Nat.le_of_not_lt fun hover => ?_
  rw [hsplit, List.append_assoc, List.append_assoc p'] at e
  obtain ⟨z, rfl⟩ : p' <+: p :=
    List.prefix_of_prefix_length_le ⟨_, rfl⟩ ⟨_, e⟩ (Nat.le_of_lt hlen)
  have hz : z ≠ [] := by
    rintro rfl
    simp at hlen
  obtain ⟨y, rfl⟩ : ∃ y, z = y ++ ['\n'] :=
    List.getLast?_eq_some_iff.mp ((hline.of_append hz).resolve_left hz)
  -- The newline that ends `p` can only lie in the white space before the equals sign.
  have hnl : '\n' ∉ ind' ++ a.key := by
    have hkeynl : '\n' ∉ a.key := fun hm => ha.solid.1.1 (by rw [hfield]; simp [hm])
    simp only [List.mem_append, not_or]
    exact ⟨newline_notMem_of_all hind', hkeynl⟩
  have e1 : y ++ '\n' :: ((ind ++ a.field) ++ q) =
      (ind' ++ a.key) ++ (g' ++ '=' :: v' ++ b) := by
    have := List.append_cancel_left ((List.append_assoc ..).symm.trans e)
    simpa using this
  obtain ⟨x, rfl, e2⟩ := Text.prefix_before e1 hnl
  rcases Text.cases_of_cons_append e2.symm (show '\n' ∉ '=' :: v' by simp [hv']) with
    ⟨s, rfl, -⟩ | ⟨r, rfl, e3⟩
  · simp only [List.length_append, List.length_cons, List.length_nil] at hover
    omega
  · have hr : Text.isBlank r := (Text.isBlank_append.mp
      (show Text.isBlank ((x ++ ['\n']) ++ r) by simpa using hg')).2
    rw [hfield, hkey] at e3
    have e4 : ind ++ c :: (k ++ (g ++ '=' :: (v ++ q))) = r ++ '=' :: (v' ++ b) := by
      simpa using e3
    exact hceq (blank_unique (isBlank_of_all_isIndent hind) hr hc (by decide) e4).2.1

/-- The line of the assignment is among the lines that assign. -/
theorem HoldsLine.exists_mem (h : a.HoldsLine inner) (ha : a.Proper) :
    ∃ m ∈ a.active.findAll inner, (m.text inner).trim = a.field := by
  obtain ⟨p, ind, q, h⟩ := h
  have hne : ind ++ a.field ≠ [] := by
    obtain ⟨c, k, g, v, -, -, -, -, hfield⟩ := ha.assigns
    rw [hfield]
    simp
  obtain ⟨m, hm, hat⟩ := exists_mem_findAll (flat_active a) h.1 (h.spans ha) hne
    fun _ _ _ e hu hlen => h.over ha e hu hlen
  obtain ⟨u, b, e, hu, -, htext⟩ := hat.text_eq
  refine ⟨m, hm, ?_⟩
  rw [htext, h.eq_of_spans ha e hu]
  have := Text.trim_tight (isBlank_of_all_isIndent h.2.2.2) ha.tight_field (by decide : Text.isBlank [])
  rwa [List.append_nil] at this

theorem HoldsLine.not_isBlank (h : a.HoldsLine inner) (ha : a.Proper) : ¬Text.isBlank inner := by
  obtain ⟨p, ind, q, rfl, -⟩ := h
  obtain ⟨c, k, g, v, -, -, -, -, hfield⟩ := ha.assigns
  intro hblank
  have : Graft.isBlank '=' := List.all_eq_true.mp hblank '=' (by rw [hfield]; simp)
  exact absurd this (by decide)

/-! ### The indentation of a line -/

/-- Every way to match begins a line, and records the indentation of the line as group 1. -/
def Indented (r : Pattern) : Prop :=
  ∀ x t s, s ∈ r.ways ⟨x.reverse, t, []⟩ → AtLineStart x ∧ ∃ ind v b, ind.all isIndent ∧
    t = ind ++ v ++ b ∧ s = ⟨(x ++ (ind ++ v)).reverse, b, [(1, x.reverse, (x ++ ind).reverse)]⟩

theorem indented_lineStart : Indented (.assert .lineStart ++ .group 1 .indent) := by
  intro x t s hs
  obtain ⟨s', h1, h2⟩ := List.mem_flatMap.mp hs
  simp only [ways] at h1
  split at h1
  · next hline =>
      obtain rfl := List.mem_singleton.mp h1
      obtain ⟨s', h3, rfl⟩ := List.mem_map.mp h2
      obtain ⟨ind, b, rfl, hind, rfl⟩ := Spot.mem_takeMany.mp h3
      rw [List.head?_reverse] at hline
      refine ⟨holds_lineStart.mp hline, ind, [], b, ?_, by simp, by simp [Spot.close]⟩
      exact spans_indent.mp (show Pattern.indent.Spans x ind b from hind)
  · simp at h1

theorem Indented.seq {r r' : Pattern} (h : Indented r) (hr' : r'.Groupless) :
    Indented (r ++ r') := by
  intro x t s hs
  obtain ⟨s', h1, h2⟩ := List.mem_flatMap.mp hs
  obtain ⟨hline, ind, v, b, hind, rfl, rfl⟩ := h x t s' h1
  obtain ⟨u, b', rfl, e1, e2, -⟩ := spans_of_mem_ways h2
  have hgroups := groups_of_mem_ways hr' h2
  obtain ⟨before, after, gs⟩ := s
  simp only at e1 e2 hgroups
  subst e1 e2 hgroups
  exact ⟨hline, ind, v ++ u, after, hind, by simp, by simp⟩

theorem groupless_assigning (key : Text) : (assigning key).Groupless :=
  ⟨⟨⟨⟨groupless_ofText _, trivial⟩, groupless_ofText _⟩, trivial⟩, trivial⟩

theorem indented_active (a : BlockAssignment) : Indented a.active :=
  indented_lineStart.seq (groupless_assigning _)

theorem indented_commented (a : BlockAssignment) : Indented a.commented :=
  ((indented_lineStart.seq (groupless_ofText _)).seq (show blanks.Groupless from trivial)).seq
    (groupless_assigning _)

/-- A line of text that was matched to be replaced. -/
structure Line (inner p ind v q : Text) (m : Match) : Prop where
  split : inner = p ++ (ind ++ v) ++ q
  lineStart : AtLineStart p
  lineEnds : LineEnds q
  allIndent : ind.all isIndent
  full : '=' ∈ v
  start_eq : m.start = p.length
  stop_eq : m.stop = p.length + (ind ++ v).length
  group_eq : m.group? 1 = some (p.length, p.length + ind.length)

theorem exists_line_of_find? {r : Pattern} {key : Text} {m : Match} (hflat : (r ++ assigning key).Flat)
    (hind : Indented (r ++ assigning key)) (h : (r ++ assigning key).find? inner = some m) :
    ∃ p ind v q, Line inner p ind v q m := by
  obtain ⟨p, u, q, gs, hfirst, rfl⟩ := exists_first_of_find?_eq_some hflat h
  obtain ⟨hline, ind, v, b, hall, e, es⟩ := hind p (u ++ q) _ (List.mem_of_mem_head? hfirst.best)
  obtain ⟨e1, rfl, rfl⟩ := Spot.mk.inj es
  obtain rfl := List.append_cancel_left (List.reverse_inj.mp e1)
  obtain ⟨x, y, hxy, -, hy⟩ := spans_seq.mp hfirst.spans
  obtain ⟨hend, g, w, -, -, rfl⟩ := spans_assigning.mp hy
  refine ⟨p, ind, v, q, hfirst.split, hline, hend, hall, ?_, ?_, ?_, ?_⟩
  · have hmem : '=' ∈ ind ++ v := by
      rw [hxy]
      simp
    rcases List.mem_append.mp hmem with h | h
    · have := List.all_eq_true.mp hall _ h
      simp [isIndent] at this
    · exact h
  · simp [Match.ofSpot]
  · simp [Match.ofSpot]
    omega
  · simp [Match.ofSpot, Match.group?, Nat.add_comm]

end BlockAssignment

end Graft
