import Graft.Proofs.Anchor
import Graft.Proofs.Pattern.Words
import Graft.Proofs.Scope

/-! # Scopes and inserted lines

Lines that come in do not touch a header that shares a line with its brace, if they are apart from
it (`Insertion.avoids`).  So the scope of such a header keeps its inside, or the lines come in there
(`OnLine.insertion`). -/

namespace Graft

open Text (AtLineStart Break OneLine Insertion squeeze apart block)
open Brace (isBalanced)
open Pattern (Squeezes)

variable {header : Pattern} {t t' a g r u v inner b p q lead indent w : Text} {ls : List Text}

/-- A header: the words `w`, without an opening brace, with white space between them. -/
structure Pattern.IsHeader (header : Pattern) (w : Text) : Prop where
  flat : header.Flat
  plain : header.Plain
  squeezes : header.Squeezes w
  noOpen : '{' ∉ w

namespace Pattern.IsHeader

variable (hh : header.IsHeader w)

include hh

theorem not_spans_nil : ¬header.Spans [] [] [] := hh.squeezes.not_spans_nil

theorem open_notMem (hu : header.Spans a u b) : '{' ∉ u := by
  intro hm
  have e := (hh.squeezes a u b hu).1
  refine hh.noOpen ?_
  rw [← e]
  exact List.mem_filter.mpr ⟨hm, by decide⟩

/-- The match of the header lies before the brace. -/
theorem exists_gap (h : OpenAt header t a g r) (e : t = a ++ u ++ v) (hu : header.Spans a u v) :
    ∃ y, g = u ++ y := by
  have e' : a ++ (g ++ '{' :: r) = a ++ (u ++ v) := by
    rw [← List.append_assoc, ← List.append_assoc, ← h.split, e]
  obtain ⟨y, hg, -⟩ := Text.prefix_before (List.append_cancel_left e') (hh.open_notMem hu)
  exact ⟨y, hg⟩

end Pattern.IsHeader

/-! ### The inside -/

/-- Lines that come in between the braces of a scope come into its inside. -/
theorem Text.Insertion.inside (h : Insertion ls (a ++ g ++ '{' :: p) lead indent (q ++ '}' :: b) t t') :
    Insertion ls p lead indent q (p ++ q) (p ++ block lead indent ls ++ q) := by
  have hpre : ∀ x : Text, a ++ g ++ '{' :: x = (a ++ g ++ ['{']) ++ x := fun x => by simp
  have hstart : ∀ {x : Text}, AtLineStart (a ++ g ++ '{' :: x) → AtLineStart x := by
    intro x hx
    by_cases h0 : x = []
    · exact .inl h0
    · rw [hpre] at hx
      exact hx.of_append h0
  refine ⟨rfl, rfl, ?_, h.newlines, ?_, h.allIndent⟩
  · rcases h.place with hp | hp | hq
    · exact .inl (hstart hp)
    · by_cases h0 : p = []
      · exact .inl (.inl h0)
      · obtain ⟨c, hc⟩ := Option.isSome_iff_exists.mp (List.getLast?_isSome.mpr h0)
        rw [hpre, List.getLast?_append, hc, Option.some_or] at hp
        exact .inr (.inl (by rw [hc, hp]))
    · refine .inr (.inr fun c hc => hq c ?_)
      rw [List.head?_append, hc, Option.some_or]
  · have hline := h.lineStart
    rw [List.append_assoc, List.cons_append] at hline
    exact hstart hline

theorem Edge.inside (h : Edge (a ++ g ++ '{' :: p) (q ++ '}' :: b)) : Edge p q := by
  rcases h with (h | h) | h
  · by_cases h0 : p = []
    · exact .inl (.inl (.inl h0))
    · have e : a ++ g ++ '{' :: p = (a ++ g ++ ['{']) ++ p := by simp
      rw [e] at h
      exact .inl (.inl (h.of_append h0))
  · simp at h
  · cases q with
    | nil => exact .inl (.inr rfl)
    | cons c q => exact .inr h

/-- A balanced text between the braces of a scope gives way to another one. -/
theorem ScopeAt.replace {old new : Text} (h : ScopeAt header t a g (p ++ old ++ q) b)
    (hh : header.IsHeader w) (hold : isBalanced old)
    (hnew : header.Untouched (a ++ g ++ '{' :: p) new (q ++ '}' :: b)) (hbal : isBalanced new) :
    ScopeAt header (a ++ g ++ '{' :: p ++ new ++ (q ++ '}' :: b)) a g (p ++ new ++ q) b := by
  obtain ⟨u, v, eu, hu⟩ := h.leftmost.1
  obtain ⟨y, rfl⟩ := hh.exists_gap h.toOpenAt eu hu
  have e : t = (a ++ (u ++ y) ++ '{' :: p) ++ old ++ (q ++ '}' :: b) := by
    rw [h.split]
    simp
  have hleft := h.leftmost
  rw [e] at hleft
  have hlen : a.length < (a ++ (u ++ y) ++ '{' :: p).length := by
    simp only [List.length_append, List.length_cons]
    omega
  refine ⟨⟨by simp, h.gap, hleft.moved hh.plain hh.not_spans_nil (.inl ⟨rfl, hlen⟩) ?_ hnew⟩, ?_⟩
  · exact ⟨u, y ++ '{' :: p ++ new ++ (q ++ '}' :: b), by simp, hu.plain hh.plain _ _⟩
  · have hin := h.balanced
    rw [isBalanced, Brace.closes_insert hold] at hin
    rw [isBalanced, Brace.closes_insert hbal]
    exact hin

/-- A balanced text between the braces of a scope becomes part of its inside. -/
theorem ScopeAt.insert (h : ScopeAt header t a g (p ++ q) b) (hh : header.IsHeader w) {new : Text}
    (hnew : header.Untouched (a ++ g ++ '{' :: p) new (q ++ '}' :: b)) (hbal : isBalanced new) :
    ScopeAt header (a ++ g ++ '{' :: p ++ new ++ (q ++ '}' :: b)) a g (p ++ new ++ q) b := by
  rw [← List.append_nil p] at h
  exact h.replace hh rfl hnew hbal

/-! ### Headers on one line -/

/-- Between a header and its brace there is no break. -/
theorem Text.Break.not_before_open {x : Text} (h : Break (a ++ x) ('{' :: r)) (hx : OneLine x)
    (hopen : '{' ∉ x) (hne : x ≠ []) : False := by
  obtain ⟨c, hc⟩ := Option.isSome_iff_exists.mp (List.getLast?_isSome.mpr hne)
  have hmem := List.mem_of_getLast? hc
  rcases h with h | h | h
  · rcases h.of_append hne with h | h
    · exact hne h
    · exact hx.1 (List.mem_of_getLast? h)
  · rw [List.getLast?_append, hc, Option.some_or] at h
    rw [Option.some.inj h] at hmem
    exact hopen hmem
  · exact absurd (h '{' rfl) (by decide)

theorem Text.Insertion.untouched (h : Insertion ls p lead indent q t t') (hh : header.IsHeader w)
    (hapart : apart w (squeeze ls.flatten)) : header.Untouched p (block lead indent ls) q := by
  refine hh.squeezes.untouched ?_
  rw [Text.squeeze_block h.newlines h.allIndent]
  exact hapart

theorem Text.Insertion.avoids (h : Insertion ls p lead indent q t t') (hh : header.IsHeader w)
    (hapart : apart w (squeeze ls.flatten)) (hbal : isBalanced (squeeze ls.flatten)) :
    Avoids header p [] (block lead indent ls) q where
  apart := by
    intro a g r hopen hg u v e hu
    obtain ⟨y, rfl⟩ := hh.exists_gap hopen e hu
    have hgap := hopen.gap
    simp only [OneLine, List.mem_append, not_or] at hg hgap
    rw [List.append_nil] at e
    rcases Text.cut_cases e with ⟨r, rfl, -⟩ | ⟨r, rfl, -⟩ | ⟨x, z, hx, hz, rfl, rfl, rfl⟩
    · exact .inl (by simp)
    · exact .inr (by simp)
    · exact (h.place.not_inside ⟨hg.1.1, hg.2.1⟩ hgap.1 hx hz).elim
  gap := by
    intro a g r x y hopen hg hx hb hxy
    have hgap := hopen.gap
    rw [List.append_nil] at hxy
    have hsplit := hopen.split
    rw [hb, hxy, List.append_nil, List.append_assoc, List.append_assoc, List.append_assoc] at hsplit
    obtain rfl : q = y ++ '{' :: r := List.append_cancel_left (List.append_cancel_left hsplit)
    have hplace := h.place
    rw [hb] at hplace
    rw [hxy] at hg hgap
    by_cases hy : y = []
    · -- The place is directly before the brace, where no lines go.
      rw [hy, List.append_nil] at hg hgap
      rw [hy, List.nil_append] at hplace
      exact (hplace.not_before_open hg hgap hx).elim
    · exact (hplace.not_inside hg hgap hx hy).elim
  untouched := h.untouched hh hapart
  free := Brace.free_nil
  balanced := h.isBalanced_block hbal

/-- Lines come in that are apart from the words of a header on one line: the header stays on one
line, and its scope keeps its inside or has the lines there. -/
theorem OnLine.insertion (h : OnLine header t) (hh : header.IsHeader w)
    (hins : Insertion ls p lead indent q t t') (hapart : apart w (squeeze ls.flatten))
    (hbal : isBalanced (squeeze ls.flatten)) :
    OnLine header t' ∧ ((Scope.find? header t = none ∧ Scope.find? header t' = none) ∨
      ∃ a g inner b a' g' inner' b', ScopeAt header t a g inner b ∧
        ScopeAt header t' a' g' inner' b' ∧ (inner' = inner ∨ ∃ p' q', p = a ++ g ++ '{' :: p' ∧
          q = q' ++ '}' :: b ∧ Insertion ls p' lead indent q' inner inner')) := by
  have hc := hins.avoids hh hapart hbal
  have et : p ++ [] ++ q = t := by rw [hins.source, List.append_nil]
  rw [← et] at h
  have hmoved := h.moved hh.plain hh.flat hh.not_spans_nil hc
  have hcases := h.change hh.plain hh.flat hh.not_spans_nil hc
  rw [← hins.target] at hmoved hcases
  rw [et] at hcases
  refine ⟨hmoved, hcases.imp id ?_⟩
  rintro ⟨a, g, inner, b, a', g', inner', b', hscope, hscope', hin⟩
  refine ⟨a, g, inner, b, a', g', inner', b', hscope, hscope', hin.imp id ?_⟩
  rintro ⟨p', q', rfl, rfl, rfl, rfl⟩
  refine ⟨p', q', rfl, rfl, ?_⟩
  rw [List.append_nil]
  exact hins.inside

end Graft
