import Graft.Proofs.Brace
import Graft.Proofs.Pattern.Reach
import Graft.Proofs.Text.Line
import Graft.Scope

/-! # How a scope cuts a text

Whatever its header is, a scope that is found cuts the text at its two braces, and what lies between
them is balanced (`Scope.exists_cuts`).  The line of the opening brace ends between the two, or the
scope ends on it (`Scope.Cuts.lineEnd_cases`). -/

namespace Graft

open Text (LineEnds)
open Brace (isBalanced)

variable {header : Pattern} {t a g inner b : Text} {s : Scope}

/-- The scope that the look-up returns. -/
def Scope.of (a g inner : Text) : Scope :=
  ⟨a.length, (a ++ g).length, (a ++ g).length + 1 + inner.length⟩

/-- The text up to the start of the header, the gap `g` up to the brace, the inside of the scope, and
what lies behind it. -/
structure Scope.Cuts (s : Scope) (t a g inner b : Text) : Prop where
  split : t = a ++ g ++ '{' :: (inner ++ '}' :: b)
  gap : '{' ∉ g
  balanced : isBalanced inner
  eq : s = .of a g inner

theorem textFind?_eq_some_iff {c : Char} {n : Nat} :
    Text.find? [c] t = some n ↔ ∃ g r, t = g ++ c :: r ∧ c ∉ g ∧ n = g.length := by
  induction t generalizing n with
  | nil => simp [Text.find?]
  | cons d t ih =>
      have hhead : [c].isPrefixOf (d :: t) ↔ d = c := by
        rw [List.isPrefixOf, List.isPrefixOf, Bool.and_true, beq_iff_eq]
        exact eq_comm
      rw [Text.find?]
      split
      · next h =>
          obtain rfl := hhead.mp h
          constructor
          · intro hn
            obtain rfl := Option.some.inj hn
            exact ⟨[], t, rfl, List.not_mem_nil, rfl⟩
          · rintro ⟨g, r, e, hg, rfl⟩
            cases g with
            | nil => rfl
            | cons x g =>
                obtain ⟨rfl, -⟩ := List.cons.inj e
                simp at hg
      · next h =>
          rw [hhead] at h
          rw [Option.map_eq_some_iff]
          constructor
          · rintro ⟨k, hk, rfl⟩
            obtain ⟨g, r, rfl, hg, rfl⟩ := ih.mp hk
            exact ⟨d :: g, r, rfl, by simp [hg, Ne.symm h], rfl⟩
          · rintro ⟨g, r, e, hg, rfl⟩
            cases g with
            | nil => exact absurd (List.cons.inj e).1 h
            | cons x g =>
                obtain ⟨rfl, rfl⟩ := List.cons.inj e
                rw [List.mem_cons, not_or] at hg
                exact ⟨g.length, ih.mpr ⟨g, r, rfl, hg.2, rfl⟩, rfl⟩

namespace Scope

theorem exists_cuts (h : find? header t = some s) :
    ∃ m a g inner b, header.find? t = some m ∧ m.start = a.length ∧ s.Cuts t a g inner b := by
  simp only [find?, Option.bind_eq_bind, Option.bind_eq_some_iff, Option.pure_def,
    Option.some.injEq] at h
  obtain ⟨m, hm, gap, hgap, close, hclose, rfl⟩ := h
  obtain ⟨a, u, r, ht, hstart, -, -⟩ := Pattern.exists_split_of_find? hm
  rw [List.append_assoc] at ht
  rw [hstart, ht, List.drop_left] at hgap
  obtain ⟨g, r, hur, hg, rfl⟩ := textFind?_eq_some_iff.mp hgap
  have hsplit : t = (a ++ g) ++ '{' :: r := by
    rw [ht, hur, List.append_assoc]
  rw [hstart, ← List.length_append, hsplit, Brace.closingOf?_append,
    Option.map_eq_some_iff] at hclose
  obtain ⟨k, hk, rfl⟩ := hclose
  obtain ⟨inner, b, rfl, rfl, hin⟩ := Brace.partner?_eq_some_iff.mp hk
  refine ⟨m, a, g, inner, b, hm, hstart, hsplit, hg, hin, ?_⟩
  rw [hstart, of, List.length_append]

namespace Cuts

variable (h : s.Cuts t a g inner b)

include h

theorem openAt_eq : s.openAt = (a ++ g).length := by
  rw [h.eq, of]

theorem closeAt_eq : s.closeAt = (a ++ g).length + 1 + inner.length := by
  rw [h.eq, of]

theorem inner_eq : s.inner t = inner := by
  have e : t = (a ++ g ++ ['{']) ++ inner ++ '}' :: b := by
    rw [h.split]
    simp
  have hslice := Text.slice_append (a ++ g ++ ['{']) inner ('}' :: b)
  rw [← e, List.length_append, List.length_singleton] at hslice
  unfold Scope.inner
  rw [h.openAt_eq, h.closeAt_eq]
  exact hslice

/-- The line of the opening brace ends inside the scope, or the scope ends on it. -/
theorem lineEnd_cases :
    ∃ p q, t = p ++ q ∧ t.nextLineStart s.openAt = p.length ∧
      (('\n' ∈ inner ∧ ∃ p' q', inner = p' ++ q' ∧ p = a ++ g ++ '{' :: p' ∧ q = q' ++ '}' :: b) ∨
        ('\n' ∉ inner ∧ ∃ x, p = a ++ g ++ '{' :: inner ++ '}' :: x ∧ b = x ++ q)) := by
  have hnext : ∀ l r : Text, t = (a ++ g) ++ (l ++ r) → '\n' ∉ l → LineEnds r →
      t = ((a ++ g) ++ l ++ r.take 1) ++ r.drop 1 ∧
        t.nextLineStart s.openAt = ((a ++ g) ++ l ++ r.take 1).length := by
    intro l r e hl hr
    constructor
    · rw [List.append_assoc _ (r.take 1), List.take_append_drop, e]
      simp
    · have hlen := Text.nextLineStart_append (x := a ++ g) hl hr
      rw [← e] at hlen
      rw [h.openAt_eq, hlen]
      simp only [List.length_append]
  by_cases hnl : '\n' ∈ inner
  · obtain ⟨l, r, rfl, hl, hr⟩ := Text.exists_lineEnd inner
    cases r with
    | nil => exact absurd (by simpa using hnl) hl
    | cons c r =>
        obtain rfl := hr c rfl
        have e : t = (a ++ g) ++ (('{' :: l) ++ ('\n' :: (r ++ '}' :: b))) := by
          rw [h.split]
          simp
        obtain ⟨hsplit, hlen⟩ := hnext _ _ e (by simpa using hl) (Text.lineEnds_newline _)
        exact ⟨_, _, hsplit, hlen, .inl ⟨hnl, l ++ ['\n'], r, by simp, by simp, by simp⟩⟩
  · obtain ⟨l, r, rfl, hl, hr⟩ := Text.exists_lineEnd b
    have e : t = (a ++ g) ++ (('{' :: inner ++ '}' :: l) ++ r) := by
      rw [h.split]
      simp
    have hline : '\n' ∉ '{' :: inner ++ '}' :: l := by
      simpa using ⟨hnl, hl⟩
    obtain ⟨hsplit, hlen⟩ := hnext _ _ e hline hr
    refine ⟨_, _, hsplit, hlen, .inr ⟨hnl, l ++ r.take 1, by simp, ?_⟩⟩
    rw [List.append_assoc, List.take_append_drop]

/-- A scope on one line ends on the line of its opening brace. -/
theorem nextLineStart_closeAt (hnl : '\n' ∉ inner) :
    t.nextLineStart s.closeAt = t.nextLineStart s.openAt := by
  obtain ⟨l, r, rfl, hl, hr⟩ := Text.exists_lineEnd b
  have hline : '\n' ∉ '{' :: inner ++ '}' :: l := by
    simpa using ⟨hnl, hl⟩
  have hopen := Text.nextLineStart_append (x := a ++ g) hline hr
  have hclose := Text.nextLineStart_append (x := a ++ g ++ '{' :: inner) (l := '}' :: l)
    (by simpa using hl) hr
  have e1 : t = a ++ g ++ ('{' :: inner ++ '}' :: l ++ r) := by
    rw [h.split]
    simp
  have e2 : t = a ++ g ++ '{' :: inner ++ ('}' :: l ++ r) := by
    rw [h.split]
    simp
  rw [← e1] at hopen
  rw [← e2] at hclose
  have hlen : s.closeAt = (a ++ g ++ '{' :: inner).length := by
    rw [h.closeAt_eq]
    simp only [List.length_append, List.length_cons]
    omega
  rw [h.openAt_eq, hlen, hopen, hclose]
  simp only [List.length_append, List.length_cons]
  omega

end Cuts

end Scope

end Graft
