import Graft.Proofs.Block.Edit

/-! # Names that are single words

For a name without white space and braces a header line can be told from its text alone: it is the
line whose words are the name and a brace.  So a rendered block brings header lines of its own names
only (`silent_renderField`, `silent_render`), and the look-up finds it where there was none of its
name before (`blockAt_renderField`). -/

namespace Graft

open Text (AtLineStart Stops)
open Brace (Free isBalanced)

variable {name n m s t a a' ind ind' gap gap' rest before new x y x' y' p : Text}

/-- A name without white space, line breaks and braces. -/
def Word (name : Text) : Prop :=
  name ≠ [] ∧ ∀ c ∈ name, isIndent c = false ∧ c ≠ '\n' ∧ c ≠ '{' ∧ c ≠ '}'

instance (name : Text) : Decidable (Word name) :=
  @instDecidableAnd _ _ inferInstance (List.decidableBAll _ _)

theorem Word.free (h : Word name) : Free name :=
  ⟨fun hc => (h.2 _ hc).2.2.1 rfl, fun hc => (h.2 _ hc).2.2.2 rfl⟩

theorem Word.newline_notMem (h : Word name) : '\n' ∉ name := fun hc => (h.2 _ hc).2.1 rfl

theorem Word.indentEnds (h : Word name) (t : Text) :
    ∀ c, (name ++ t).head? = some c → isIndent c = false := by
  obtain ⟨hne, h⟩ := h
  cases name with
  | nil => exact absurd rfl hne
  | cons d name =>
      rintro c ⟨⟩
      exact (h d (List.mem_cons_self ..)).1

/-! ### Header lines of words -/

theorem takeWhile_word (h : Word name) (hgap : gap.all isIndent) :
    (name ++ gap).takeWhile (fun c => !isIndent c) = name := by
  have hgap' : gap.takeWhile (fun c => !isIndent c) = [] := by
    cases gap with
    | nil => rfl
    | cons c gap =>
        rw [List.all_cons, Bool.and_eq_true] at hgap
        rw [List.takeWhile_cons, hgap.1]
        rfl
  rw [List.takeWhile_append_of_pos fun c hc => by rw [(h.2 c hc).1]; rfl, hgap', List.append_nil]

/-- A line with one word tells the word. -/
theorem word_unique (hn : Word n) (hm : Word m) (hind : ind.all isIndent)
    (hind' : ind'.all isIndent) (hgap : gap.all isIndent) (hgap' : gap'.all isIndent)
    (e : ind ++ n ++ gap = ind' ++ m ++ gap') : n = m := by
  rw [List.append_assoc, List.append_assoc] at e
  have hlead := leadingIndent_append hind (hn.indentEnds gap)
  rw [e, leadingIndent_append hind' (hm.indentEnds gap')] at hlead
  subst hlead
  have e' := congrArg (List.takeWhile fun c => !isIndent c) (List.append_cancel_left e)
  rwa [takeWhile_word hn hgap, takeWhile_word hm hgap'] at e'

theorem Word.headerAt (h : Word name) (ha : AtLineStart a) (hind : ind.all isIndent)
    (hgap : gap.all isIndent) :
    HeaderAt name (a ++ (ind ++ name ++ gap) ++ '{' :: rest) a ind gap rest :=
  ⟨rfl, ha, hind, hgap, by rw [List.append_assoc]; exact h.indentEnds _, h.newline_notMem⟩

theorem Word.newline_notMem_line (h : Word name) (hind : ind.all isIndent)
    (hgap : gap.all isIndent) : '\n' ∉ ind ++ name ++ gap := by
  simp only [List.mem_append, not_or]
  exact ⟨⟨newline_notMem_of_all hind, h.newline_notMem⟩, newline_notMem_of_all hgap⟩

/-- The header lines whose brace ends the line of the word `m` are the one of `m`. -/
theorem HeaderAt.eq_of_line (h : HeaderAt n s a ind gap rest) (hn : Word n) (hm : Word m)
    (ha : AtLineStart a') (hind : ind'.all isIndent) (hgap : gap'.all isIndent)
    (e : a ++ (ind ++ n ++ gap) = a' ++ (ind' ++ m ++ gap')) : a = a' ∧ n = m := by
  obtain ⟨rfl, e'⟩ := h.lineStart.unique ha h.newline_notMem
    (hm.newline_notMem_line hind hgap) e
  exact ⟨rfl, word_unique hn hm h.allIndent hind h.allGap hgap e'⟩

/-! ### Text that brings no header line -/

/-- The text brings no header line of the name when it is put behind `before` or an end of it. -/
def Silent (name before new : Text) : Prop := ∀ p, p <:+ before → Bare name p new

theorem Silent.bare (h : Silent name before new) : Bare name before new :=
  h before (List.suffix_refl _)

theorem silent_of_free (h : '{' ∉ new) : Silent name before new := fun _ _ => bare_of_free h

theorem Text.AtLineStart.suffix (h : AtLineStart before) (hp : p <:+ before) : AtLineStart p := by
  obtain ⟨x, rfl⟩ := hp
  by_cases hne : p = []
  · exact .inl hne
  · exact h.of_append hne

/-- Inside a block the text brings no other header lines than outside. -/
theorem Silent.inBlock (h : Silent name before new) (hname : Free name) (x : Text) :
    Silent name (x ++ '{' :: before) new := by
  intro p hp
  have hcases : p <:+ before ∨ '{' :: before <:+ p := by
    rcases List.suffix_or_suffix_of_suffix hp (List.suffix_append x _) with h' | h'
    · rcases List.suffix_cons_iff.mp h' with rfl | h'
      · exact .inr (List.suffix_refl _)
      · exact .inl h'
    · exact .inr h'
  rcases hcases with h' | ⟨x', rfl⟩
  · exact h p h'
  · intro s a ind gap rest y z hnew e hhead
    -- The line of a header cannot reach over the brace, so it starts behind it.
    have hopen : '{' ∉ ind ++ name ++ gap := by
      simp only [List.mem_append, not_or]
      exact ⟨⟨(Brace.free_of_all hhead.allIndent rfl rfl).1, hname.1⟩,
        (Brace.free_of_all hhead.allGap rfl rfl).1⟩
    have e' : a ++ (ind ++ name ++ gap) = (x' ++ ['{']) ++ (before ++ y) := by simpa using e
    rcases List.append_eq_append_iff.mp e' with ⟨v, hv, hw⟩ | ⟨v, rfl, hv⟩
    · have hvn : v = [] := by
        by_cases hv0 : v = []
        · exact hv0
        · have hlast : '{' ∈ v := by
            have := congrArg List.getLast? hv
            rw [List.getLast?_concat, List.getLast?_append,
              List.getLast?_eq_some_getLast hv0, Option.some_or] at this
            exact List.mem_of_getLast? ((List.getLast?_eq_some_getLast hv0).trans this.symm)
          exact absurd (hw ▸ List.mem_append_left _ hlast) hopen
      subst hvn
      rw [List.append_nil] at hv
      have := hhead.lineStart
      rw [← hv] at this
      rcases this with h0 | h0 <;> simp at h0
    · by_cases hv0 : v = []
      · subst hv0
        have := hhead.lineStart
        rcases this with h0 | h0 <;> simp at h0
      · have hline := hhead.lineStart.of_append hv0
        exact h.bare _ v ind gap rest y z hnew hv.symm ⟨rfl, hline, hhead.allIndent,
          hhead.allGap, hhead.indentEnds, hhead.oneLine⟩

/-- The first brace of a text, or one behind it. -/
theorem open_cases (hx : '{' ∉ x) (e : x ++ '{' :: y = x' ++ '{' :: y') :
    (x' = x ∧ y' = y) ∨ ∃ w, x' = x ++ '{' :: w ∧ y = w ++ '{' :: y' := by
  rcases List.append_eq_append_iff.mp e with ⟨v, rfl, hv⟩ | ⟨v, rfl, hv⟩
  · cases v with
    | nil => exact .inl ⟨by simp, (List.cons.inj hv).2.symm⟩
    | cons c v =>
        obtain ⟨rfl, rfl⟩ := List.cons.inj hv
        exact .inr ⟨v, rfl, rfl⟩
  · cases v with
    | nil => exact .inl ⟨by simp, (List.cons.inj hv).2⟩
    | cons c v =>
        obtain ⟨rfl, -⟩ := List.cons.inj hv
        simp at hx

/-- A text whose first brace ends the line of another word, and that brings no header line behind
it, brings none. -/
theorem silent_of_line (hn : Word n) (hm : Word m) (hne : n ≠ m) (hx : '{' ∉ x)
    (hline : AtLineStart (before ++ x)) (hind : ind.all isIndent) (hgap : gap.all isIndent)
    (hy : Silent n (before ++ x ++ (ind ++ m ++ gap) ++ ['{']) y) :
    Silent n before (x ++ (ind ++ m ++ gap) ++ '{' :: y) := by
  intro p hp s a ind' gap' rest x' y' e he hhead
  have hopen : '{' ∉ x ++ (ind ++ m ++ gap) := by
    simp only [List.mem_append, not_or]
    exact ⟨hx, ⟨(Brace.free_of_all hind rfl rfl).1, hm.free.1⟩, (Brace.free_of_all hgap rfl rfl).1⟩
  rcases open_cases hopen e with ⟨rfl, -⟩ | ⟨w, rfl, rfl⟩
  · have hp' : p ++ x <:+ before ++ x := List.suffix_append_self_iff.mpr hp
    have he' : a ++ (ind' ++ n ++ gap') = (p ++ x) ++ (ind ++ m ++ gap) :=
      he.trans (List.append_assoc ..).symm
    exact hne (hhead.eq_of_line hn hm (hline.suffix hp') hind hgap he').2
  · have hp' : p ++ x ++ (ind ++ m ++ gap) ++ ['{'] <:+ before ++ x ++ (ind ++ m ++ gap) ++ ['{'] := by
      simpa only [List.suffix_append_self_iff] using hp
    exact hy _ hp' s a ind' gap' rest w y' rfl (by rw [he]; simp) hhead

/-! ### Blocks that come into being -/

theorem preferred_of_unique (h : ∀ a', IsHeaderAt name t a' → a' = a) : Preferred name t a := by
  by_cases h0 : Brace.depth a = 0
  · exact .inl ⟨h0, fun a' ha' _ => Nat.le_of_eq (by rw [h a' ha'])⟩
  · exact .inr ⟨fun a' ha' => by rw [h a' ha']; exact h0,
      fun a' ha' => Nat.le_of_eq (by rw [h a' ha'])⟩

/-- A new block is found when there was none of its name and it brings no second one. -/
theorem blockAt_of_new {old after inner z : Text}
    (hnone : BlockHeader.find? name (before ++ old ++ after) = none) (hname : Word name)
    (hafter : Stops after) (hx : '{' ∉ x) (hline : AtLineStart (before ++ x))
    (hind : ind.all isIndent) (hgap : gap.all isIndent) (hinner : isBalanced inner)
    (hrest : Silent name (before ++ x ++ (ind ++ name ++ gap) ++ ['{']) (inner ++ '}' :: z)) :
    BlockAt name (before ++ (x ++ (ind ++ name ++ gap) ++ '{' :: inner ++ '}' :: z) ++ after)
      (before ++ x) ind gap inner (z ++ after) := by
  have hhead : HeaderAt name
      (before ++ (x ++ (ind ++ name ++ gap) ++ '{' :: inner ++ '}' :: z) ++ after)
      (before ++ x) ind gap (inner ++ '}' :: (z ++ after)) := by
    have h : HeaderAt name (before ++ x ++ (ind ++ name ++ gap) ++
        '{' :: (inner ++ '}' :: (z ++ after))) (before ++ x) ind gap (inner ++ '}' :: (z ++ after)) :=
      hname.headerAt hline hind hgap
    simpa using h
  refine ⟨hhead, hinner, preferred_of_unique fun a' ha' => ?_⟩
  obtain ⟨ind', gap', rest', ha'⟩ := ha'
  have hopen : '{' ∉ x ++ (ind ++ name ++ gap) := by
    simp only [List.mem_append, not_or]
    exact ⟨hx, ⟨(Brace.free_of_all hind rfl rfl).1, hname.free.1⟩,
      (Brace.free_of_all hgap rfl rfl).1⟩
  have hbare : ∀ x' y', x ++ (ind ++ name ++ gap) ++ '{' :: inner ++ '}' :: z = x' ++ '{' :: y' →
      a' ++ (ind' ++ name ++ gap') = before ++ x' → a' = before ++ x := by
    intro x' y' e he
    have e' : (x ++ (ind ++ name ++ gap)) ++ '{' :: (inner ++ '}' :: z) = x' ++ '{' :: y' := by
      rw [← e]
      simp
    rcases open_cases hopen e' with ⟨rfl, -⟩ | ⟨w, rfl, hw⟩
    · have he' : a' ++ (ind' ++ name ++ gap') = (before ++ x) ++ (ind ++ name ++ gap) :=
        he.trans (List.append_assoc ..).symm
      exact (ha'.eq_of_line hname hname hline hind hgap he').1
    · exact absurd ha' (hrest.bare _ _ _ _ _ w y' hw (by rw [he]; simp))
  rcases ha'.cases_of_append hname.free hafter with ⟨w, hw, -⟩ | ⟨x', y', e, he, -⟩ | ⟨w, hw, ha, hr⟩
  · refine absurd ?_ (find?_eq_none_iff.mp hnone a')
    exact ⟨ind', gap', w ++ old ++ after, by rw [hw]; simp, ha'.lineStart, ha'.allIndent, ha'.allGap,
      ha'.indentEnds, ha'.oneLine⟩
  · exact hbare x' y' e he
  · refine absurd ?_ (find?_eq_none_iff.mp hnone (before ++ old ++ w))
    have hl := ha'.lineStart
    rw [ha, Text.atLineStart_append_iff hw] at hl
    exact ⟨ind', gap', rest', by rw [hr]; simp, (Text.atLineStart_append_iff hw).mpr hl,
      ha'.allIndent, ha'.allGap, ha'.indentEnds, ha'.oneLine⟩

end Graft
