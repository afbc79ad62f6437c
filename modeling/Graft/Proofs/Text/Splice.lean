import Graft.Proofs.Text.Shift

/-! # A text spliced in

What is spliced into a text is moved to an indentation and stands on lines of its own (`Spliced`),
whatever it looks like.  A word on one line and without braces is in the new text exactly when it was
in the old one or is in what has come in (`Spliced.infix_iff`). -/

namespace Graft.Text

open Brace (isBalanced)

variable {ls : List Text} {piece p q r y lead indent t t' w : Text}

/-- A text at an indentation, on lines of its own behind `lead`. -/
def inset (lead indent piece : Text) : Text := lead ++ reindent piece indent ++ ['\n']

/-- The text `piece` has come in between `p` and `q`. -/
structure Spliced (piece p lead indent q t t' : Text) : Prop where
  source : t = p ++ q
  target : t' = p ++ inset lead indent piece ++ q
  place : Break p q
  newlines : lead.all (· = '\n')
  lineStart : AtLineStart (p ++ lead)
  allIndent : indent.all isIndent

namespace Spliced

/-- Lines without a common indentation keep what they look like. -/
theorem insertion (h : Spliced (joinLines ls) p lead indent q t t') (hls : Body ls) :
    Insertion ls p lead indent q t t' where
  source := h.source
  target := by rw [h.target, inset, reindent_joinLines hls, block]
  place := h.place
  newlines := h.newlines
  lineStart := h.lineStart
  allIndent := h.allIndent

variable (h : Spliced piece p lead indent q t t')

include h

theorem squeeze_inset : squeeze (inset lead indent piece) = squeeze piece := by
  rw [inset, squeeze_append, squeeze_append, squeeze_newlines h.newlines,
    squeeze_reindent h.allIndent]
  exact List.append_nil _

theorem isBalanced_inset (hpiece : isBalanced piece) : isBalanced (inset lead indent piece) := by
  rw [isBalanced, ← closes_squeeze, h.squeeze_inset, closes_squeeze]
  exact hpiece

theorem mem_of_mem_inset {c : Char} (hc : Graft.isBlank c = false)
    (hmem : c ∈ inset lead indent piece) : c ∈ piece := by
  have hsqueeze : c ∈ squeeze (inset lead indent piece) := List.mem_filter.mpr ⟨hmem, by rw [hc]; rfl⟩
  rw [h.squeeze_inset] at hsqueeze
  exact (List.mem_filter.mp hsqueeze).1

/-- Where no line starts, a newline comes first. -/
theorem exists_newline (hp : ¬AtLineStart p) : ∃ s, inset lead indent piece = '\n' :: s := by
  have hline := h.lineStart
  have hnew := h.newlines
  cases lead with
  | nil =>
      rw [List.append_nil] at hline
      exact absurd hline hp
  | cons c lead =>
      rw [List.all_cons, Bool.and_eq_true, decide_eq_true_eq] at hnew
      obtain ⟨rfl, -⟩ := hnew
      exact ⟨lead ++ reindent piece indent ++ ['\n'], rfl⟩

/-! ### Words -/

theorem infix_target (hw : OneLine w) (hopen : '{' ∉ w) (hin : w <:+: t) : w <:+: t' := by
  rw [h.source] at hin
  rw [h.target]
  exact h.place.infix_insert hw hopen hin _

theorem infix_of_inset (hw : Whole w) (hin : w <:+: inset lead indent piece) : w <:+: piece := by
  obtain ⟨c, v, rfl, hc⟩ := hw.exists_head
  have hnl := hw.1.1
  rw [inset, List.append_assoc] at hin
  rcases infix_newline hnl (infix_of_newlines h.newlines hnl (List.cons_ne_nil c v) hin) with hin | hin
  · exact infix_of_reindent hnl hc h.allIndent hin
  · simp at hin

/-- Where a word of the new text comes from. -/
theorem cases_of_infix (hw : Whole w) (hin : w <:+: t') :
    w <:+: p ∨ w <:+: q ∨ w <:+: piece := by
  obtain ⟨c, v, rfl, hc⟩ := hw.exists_head
  have hnl := hw.1.1
  rw [h.target, inset] at hin
  rcases infix_between h.newlines h.lineStart hnl (List.cons_ne_nil c v) hin with hin | hin | hin
  · exact .inl hin
  · exact .inr (.inl hin)
  · exact .inr (.inr (infix_of_reindent hnl hc h.allIndent hin))

/-- A word that has not come in is in the new text when it was in the old one. -/
theorem infix_iff (hw : Whole w) (hpiece : ¬w <:+: piece) : w <:+: t' ↔ w <:+: t := by
  constructor
  · intro hin
    rcases h.cases_of_infix hw hin with hin | hin | hin
    · exact h.source ▸ hin.trans (List.prefix_append p q).isInfix
    · exact h.source ▸ hin.trans (List.suffix_append p q).isInfix
    · exact absurd hin hpiece
  · exact h.infix_target hw.1 hw.2.1

omit h in
/-- The same happens in a text that ends earlier. -/
theorem left (h : Spliced piece p lead indent (r ++ y) t t') :
    Spliced piece p lead indent r (p ++ r) (p ++ inset lead indent piece ++ r) where
  source := rfl
  target := rfl
  place := by
    rcases h.place with hp | hp | hq
    · exact .inl hp
    · exact .inr (.inl hp)
    · refine .inr (.inr fun c hc => hq c ?_)
      rw [List.head?_append, hc, Option.some_or]
  newlines := h.newlines
  lineStart := h.lineStart
  allIndent := h.allIndent

end Spliced

end Graft.Text
