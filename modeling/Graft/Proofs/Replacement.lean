import Graft.Proofs.Scope
import Graft.Proofs.Text.Absorb
import Graft.Replacement

/-! # Replaced scopes

`replaceScope` puts the lines of its text where a scope was, from the start of the line of the header
to the closing brace (`WholeScope.replaceScope_eq`).  A scope with the same lines stays as it is, as
do the lines that it has put there itself, where the header is found again
(`FoundAgain.replaceScope_eq`). -/

namespace Graft

open Text (AtLineStart Body Full)

variable {header : Pattern} {t x l g r inner b body indent : Text} {ls : List Text}

namespace Text

theorem full_indented (hls : ∀ l ∈ ls, Full l) (hindent : indent.all isIndent) :
    ∀ l ∈ ls.map (indent ++ ·), Full l := by
  intro m hm
  obtain ⟨l, hl, rfl⟩ := List.mem_map.mp hm
  exact (hls l hl).indented (newline_notMem_of_all hindent)

/-- Moving lines to another indentation keeps them the same. -/
theorem sameLines_reindent (hls : Body ls) (hindent : indent.all isIndent) :
    sameLines (joinLines (ls.map (indent ++ ·))) (joinLines ls) := by
  rw [sameLines, decide_eq_true_iff, ← reindent_joinLines hls, fullLines_reindent hindent]

end Text

/-- The text that goes when a scope is replaced: the rest `l` of the line before the header, the gap
`g` up to the brace, and the scope. -/
def wholeText (l g inner : Text) : Text := l ++ g ++ '{' :: inner ++ ['}']

namespace Scope

/-- The scope from the start of the line of its header on. -/
def whole (s : Scope) (t : Text) : Text := t.slice (t.lineStart s.headerStart) (s.closeAt + 1)

namespace Cuts

variable {s : Scope} (h : s.Cuts t (x ++ l) g inner b)

include h

theorem split_whole : t = x ++ wholeText l g inner ++ b := by
  rw [h.split, wholeText]
  simp

theorem closeAt_whole : s.closeAt + 1 = x.length + (wholeText l g inner).length := by
  rw [h.closeAt_eq]
  simp only [wholeText, List.length_append, List.length_cons, List.length_nil]
  omega

theorem drop_closeAt : t.drop (s.closeAt + 1) = b := by
  rw [h.closeAt_whole, ← List.length_append]
  conv => lhs; rw [h.split_whole]
  exact List.drop_left

variable (hx : AtLineStart x) (hl : '\n' ∉ l)

include hx hl

theorem lineStart_eq : t.lineStart s.headerStart = x.length := by
  have e := Text.lineStart_append hx hl (g ++ '{' :: (inner ++ '}' :: b))
  rw [← List.append_assoc, ← h.split] at e
  rw [h.eq]
  exact e

theorem take_lineStart : t.take (t.lineStart s.headerStart) = x := by
  rw [h.lineStart_eq hx hl]
  conv => lhs; rw [h.split_whole, List.append_assoc]
  exact List.take_left

theorem whole_eq : s.whole t = wholeText l g inner := by
  have e := Text.slice_append x (wholeText l g inner) b
  rw [← h.split_whole] at e
  rw [Scope.whole, h.lineStart_eq hx hl, h.closeAt_whole, e]

/-- What becomes of the text. -/
theorem replaceScope_eq (hfind : find? header t = some s) (body : Text) :
    replaceScope header body t =
      if Text.sameLines (wholeText l g inner) body then ⟨t, .alreadyPresent⟩
      else ⟨x ++ Text.reindent body (t.indentAt x.length) ++ b, .replaced⟩ := by
  have hwhole := h.whole_eq hx hl
  rw [Scope.whole] at hwhole
  have hreplace := Text.replaceRange_append x (wholeText l g inner) b
    (Text.reindent body (t.indentAt x.length))
  rw [← h.split_whole, ← h.closeAt_whole] at hreplace
  simp only [replaceScope, hfind, hwhole]
  rw [h.lineStart_eq hx hl, hreplace]

end Cuts

end Scope

/-- What becomes of a text in which a header has a scope. -/
theorem exists_replaceScope_text {s : Scope} (hfind : Scope.find? header t = some s) :
    ∃ x l g inner b, AtLineStart x ∧ '\n' ∉ l ∧ s.Cuts t (x ++ l) g inner b ∧
      ∀ body, (replaceScope header body t).text =
        if Text.sameLines (wholeText l g inner) body then t
        else x ++ Text.reindent body (t.indentAt x.length) ++ b := by
  obtain ⟨m, a, g, inner, b, -, -, hcuts⟩ := Scope.exists_cuts hfind
  obtain ⟨x, l, rfl, hx, hl⟩ := Text.exists_lineStart a
  refine ⟨x, l, g, inner, b, hx, hl, hcuts, fun body => ?_⟩
  rw [hcuts.replaceScope_eq hx hl hfind, apply_ite Injection.text]

/-! ### Replacing again -/

/-- The header has no scope, or one with the lines already, or a text at the indentation of the header
takes its place. -/
theorem replaceScope_outcomes (header : Pattern) (body t : Text) :
    (Scope.find? header t = none ∧ replaceScope header body t = ⟨t, .anchorNotFound⟩) ∨
      ∃ s, Scope.find? header t = some s ∧
        (Text.fullLines (s.whole t) = Text.fullLines body ∧
            replaceScope header body t = ⟨t, .alreadyPresent⟩ ∨
          Text.fullLines (s.whole t) ≠ Text.fullLines body ∧
            replaceScope header body t = ⟨t.take (t.lineStart s.headerStart) ++
              Text.reindent body (t.indentAt (t.lineStart s.headerStart)) ++ t.drop (s.closeAt + 1),
              .replaced⟩) := by
  unfold replaceScope
  cases hfind : Scope.find? header t with
  | none => exact .inl ⟨rfl, rfl⟩
  | some s =>
      refine .inr ⟨s, rfl, ?_⟩
      simp only
      split
      · next hsame => exact .inl ⟨of_decide_eq_true hsame, rfl⟩
      · next hsame => exact .inr ⟨fun h => hsame (decide_eq_true h), rfl⟩

theorem replaceScope_replaced_iff : (replaceScope header body t).outcome = .replaced ↔
    ∃ s, Scope.find? header t = some s ∧ Text.fullLines (s.whole t) ≠ Text.fullLines body := by
  obtain ⟨hnone, heq⟩ | ⟨s, hfind, ⟨hsame, heq⟩ | ⟨hdiffers, heq⟩⟩ :=
    replaceScope_outcomes header body t
  · rw [heq, hnone]
    simp
  · rw [heq, hfind]
    simp [hsame]
  · rw [heq, hfind]
    simp [hdiffers]

theorem exists_scope_of_replaced (h : (replaceScope header body t).outcome = .replaced) :
    ∃ s, Scope.find? header t = some s ∧ (replaceScope header body t).text =
      t.take (t.lineStart s.headerStart) ++
        Text.reindent body (t.indentAt (t.lineStart s.headerStart)) ++ t.drop (s.closeAt + 1) := by
  obtain ⟨-, heq⟩ | ⟨s, hfind, ⟨-, heq⟩ | ⟨-, heq⟩⟩ := replaceScope_outcomes header body t
  · rw [heq] at h
    exact InjectionOutcome.noConfusion h
  · rw [heq] at h
    exact InjectionOutcome.noConfusion h
  · exact ⟨s, hfind, congrArg Injection.text heq⟩

theorem replaceScope_text_of_not_replaced (h : (replaceScope header body t).outcome ≠ .replaced) :
    (replaceScope header body t).text = t := by
  obtain ⟨-, heq⟩ | ⟨s, -, ⟨-, heq⟩ | ⟨-, heq⟩⟩ := replaceScope_outcomes header body t
  · rw [heq]
  · rw [heq]
  · exact absurd (congrArg Injection.outcome heq) h

/-- The header has a scope from the line on which `new` starts to the end of `new`. -/
def FoundAgain (header : Pattern) (x new b : Text) : Prop :=
  ∃ s, Scope.find? header (x ++ new ++ b) = some s ∧
    (x ++ new ++ b).lineStart s.headerStart = x.length ∧ s.closeAt + 1 = (x ++ new).length

theorem FoundAgain.replaceScope_eq {new : Text} (h : FoundAgain header x new b)
    (hlines : Text.fullLines new = Text.fullLines body) :
    replaceScope header body (x ++ new ++ b) = ⟨x ++ new ++ b, .alreadyPresent⟩ := by
  obtain ⟨s, hfind, hstart, hclose⟩ := h
  have hslice : (x ++ new ++ b).slice x.length (s.closeAt + 1) = new := by
    rw [hclose, List.length_append]
    exact Text.slice_append x new b
  have hsame : Text.sameLines new body := by
    rwa [Text.sameLines, decide_eq_true_iff]
  unfold replaceScope
  simp only [hfind, hstart, hslice]
  rw [if_pos hsame]

/-! ### Whole scopes -/

/-- The scope of a header and the rest `l` of the line before it: `x` ends where that line starts,
and `b` lies behind the scope. -/
structure WholeScope (header : Pattern) (t x l g inner b : Text) : Prop where
  scope : ScopeAt header t (x ++ l) g inner b
  lineStart : AtLineStart x
  oneLine : '\n' ∉ l

theorem ScopeAt.exists_whole {a : Text} (h : ScopeAt header t a g inner b) :
    ∃ x l, a = x ++ l ∧ WholeScope header t x l g inner b := by
  obtain ⟨x, l, rfl, hx, hl⟩ := Text.exists_lineStart a
  exact ⟨x, l, rfl, h, hx, hl⟩

namespace WholeScope

variable (h : WholeScope header t x l g inner b)

include h

theorem split : t = x ++ wholeText l g inner ++ b := h.scope.cuts.split_whole

theorem whole_eq : (Scope.of (x ++ l) g inner).whole t = wholeText l g inner :=
  h.scope.cuts.whole_eq h.lineStart h.oneLine

theorem replaceScope_eq (hp : header.Flat) (body : Text) :
    replaceScope header body t =
      if Text.sameLines (wholeText l g inner) body then ⟨t, .alreadyPresent⟩
      else ⟨x ++ Text.reindent body (t.indentAt x.length) ++ b, .replaced⟩ :=
  h.scope.cuts.replaceScope_eq h.lineStart h.oneLine (h.scope.find?_eq hp) body

theorem foundAgain (hp : header.Flat) {new : Text} (ht : t = x ++ new ++ b)
    (hnew : wholeText l g inner = new) : FoundAgain header x new b := by
  subst ht
  refine ⟨_, h.scope.find?_eq hp, h.scope.cuts.lineStart_eq h.lineStart h.oneLine, ?_⟩
  rw [h.scope.cuts.closeAt_whole, hnew, List.length_append]

end WholeScope

end Graft
