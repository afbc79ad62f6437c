import Graft.Proofs.Block.Header
import Graft.Proofs.Text.Change

/-! # Blocks under a change of the text

Old text without braces gives way to new text in which all braces match, and what comes after goes
on with a newline or a closing brace, or is nothing.  Then header lines stay header lines
(`HeaderAt.moved`), the look-up still prefers the same one as long as the new text brings none of
that name (`Preferred.moved`), and the block keeps its inside, or has the change in it
(`BlockAt.change`).  `Holds` is what a script has to hold: a field in a block in a block, and so on;
`Holds.change` carries it over a change. -/

namespace Graft

open Text (AtLineStart Stops OneLine Clear Moved)
open Brace (Free isBalanced)

variable {name s t a a' ind ind' gap gap' rest rest' before old new mid after : Text}

/-! ### Header lines -/

theorem HeaderAt.oneLine_header (h : HeaderAt name t a ind gap rest) (hname : Free name) :
    OneLine (ind ++ name ++ gap) := by
  have hind := (Brace.free_of_all h.allIndent rfl rfl).2
  have hgap := (Brace.free_of_all h.allGap rfl rfl).2
  refine ⟨h.newline_notMem, ?_⟩
  simp only [List.mem_append, not_or]
  exact ⟨⟨hind, hname.2⟩, hgap⟩

/-- No header line of the name has its brace in the middle text. -/
def Bare (name before mid : Text) : Prop :=
  ∀ s a ind gap rest x y, mid = x ++ '{' :: y → a ++ (ind ++ name ++ gap) = before ++ x →
    ¬HeaderAt name s a ind gap rest

theorem bare_of_free (h : '{' ∉ mid) : Bare name before mid := by
  rintro s a ind gap rest x y rfl
  simp at h

/-- The brace of a header line lies before, in, or after the middle of a text; in the last case the
whole line does. -/
theorem HeaderAt.cases_of_append (h : HeaderAt name (before ++ mid ++ after) a ind gap rest)
    (hname : Free name) (hafter : Stops after) :
    (∃ z, before = a ++ (ind ++ name ++ gap) ++ '{' :: z ∧ rest = z ++ mid ++ after) ∨
      (∃ x y, mid = x ++ '{' :: y ∧ a ++ (ind ++ name ++ gap) = before ++ x ∧ rest = y ++ after) ∨
      ∃ z, z ≠ [] ∧ a = before ++ mid ++ z ∧ after = z ++ (ind ++ name ++ gap) ++ '{' :: rest := by
  have hline := h.oneLine_header hname
  have hopen : ∀ {r}, after ≠ '{' :: r := by
    rintro r rfl
    rcases hafter '{' rfl with h | h <;> simp at h
  rcases List.append_eq_append_iff.mp h.split with ⟨v, hv, rfl⟩ | ⟨v, hv, hrest⟩
  · -- The brace lies after the middle, and so does the line.
    rcases List.append_eq_append_iff.mp hv with ⟨z, -, hz⟩ | ⟨z, ha, rfl⟩
    · obtain rfl := OneLine.eq_nil_of_stops (OneLine.right (hz ▸ hline)) hafter
      exact absurd rfl hopen
    · by_cases hz : z = []
      · subst hz
        rw [List.nil_append] at hafter hopen
        rw [hline.eq_nil_of_stops hafter] at hopen
        exact absurd rfl hopen
      · exact .inr (.inr ⟨z, hz, ha, rfl⟩)
  · cases v with
    | nil => exact absurd hrest.symm hopen
    | cons c v =>
        obtain ⟨rfl, rfl⟩ := List.cons.inj hrest
        rcases List.append_eq_append_iff.mp hv with ⟨z, hz, rfl⟩ | ⟨z, hz, hmid⟩
        · exact .inr (.inl ⟨z, v, rfl, hz, rfl⟩)
        · cases z with
          | nil => exact .inr (.inl ⟨[], v, hmid.symm, by simpa using hz.symm, rfl⟩)
          | cons d z =>
              obtain ⟨rfl, rfl⟩ := List.cons.inj hmid
              exact .inl ⟨z, hz, rfl⟩

/-! ### Moving header lines -/

theorem Text.Moved.depth_eq (h : Moved before old new a a') (hold : isBalanced old)
    (hnew : isBalanced new) : Brace.depth a' = Brace.depth a := by
  rcases h with ⟨rfl, -⟩ | ⟨z, rfl, rfl⟩
  · rfl
  · simp only [Brace.depth_append, Brace.depth_of_isBalanced hold,
      Brace.depth_of_isBalanced hnew]

theorem HeaderAt.moved (h : HeaderAt name (before ++ old ++ after) a ind gap rest)
    (hname : Free name) (hafter : Stops after) (hold : Bare name before old) (new : Text) :
    (∃ z, before = a ++ (ind ++ name ++ gap) ++ '{' :: z ∧ rest = z ++ old ++ after ∧
        HeaderAt name (before ++ new ++ after) a ind gap (z ++ new ++ after)) ∨
      ∃ z, a = before ++ old ++ z ∧ after = z ++ (ind ++ name ++ gap) ++ '{' :: rest ∧
        HeaderAt name (before ++ new ++ after) (before ++ new ++ z) ind gap rest := by
  rcases h.cases_of_append hname hafter with ⟨z, hz, hrest⟩ | ⟨x, y, hx, he, -⟩ | ⟨z, hz, ha, hr⟩
  · refine .inl ⟨z, hz, hrest, ⟨by rw [hz]; simp, h.lineStart, h.allIndent, h.allGap,
      h.indentEnds, h.oneLine⟩⟩
  · exact absurd h (hold _ _ _ _ _ _ _ hx he)
  · refine .inr ⟨z, ha, hr, ⟨by rw [hr]; simp, ?_, h.allIndent, h.allGap, h.indentEnds,
      h.oneLine⟩⟩
    have hline := h.lineStart
    rw [ha, Text.atLineStart_append_iff hz] at hline
    exact (Text.atLineStart_append_iff hz).mpr hline

theorem IsHeaderAt.moved (h : IsHeaderAt name (before ++ old ++ after) a) (hname : Free name)
    (hafter : Stops after) (hold : Bare name before old) (new : Text) :
    ∃ a', Moved before old new a a' ∧ IsHeaderAt name (before ++ new ++ after) a' := by
  obtain ⟨ind, gap, rest, h⟩ := h
  rcases h.moved hname hafter hold new with ⟨z, hz, -, h'⟩ | ⟨z, ha, -, h'⟩
  · exact ⟨a, Text.moved_of_split hz old new, h'.isHeaderAt⟩
  · exact ⟨_, .inr ⟨z, ha, rfl⟩, h'.isHeaderAt⟩

theorem Preferred.moved (hp : Preferred name (before ++ old ++ after) a)
    (ha : Moved before old new a a') (hname : Free name) (hafter : Stops after)
    (hold : isBalanced old) (hnew : isBalanced new) (hbare : Bare name before new) :
    Preferred name (before ++ new ++ after) a' := by
  have hback : ∀ b', IsHeaderAt name (before ++ new ++ after) b' →
      ∃ b, IsHeaderAt name (before ++ old ++ after) b ∧ Brace.depth b = Brace.depth b' ∧
        (a.length ≤ b.length → a'.length ≤ b'.length) := by
    intro b' hb'
    obtain ⟨b, hmoved, hb⟩ := hb'.moved hname hafter hbare old
    exact ⟨b, hb, hmoved.depth_eq hnew hold, ha.length_le hmoved.symm⟩
  rcases hp with ⟨h0, hleast⟩ | ⟨hne, hleast⟩
  · refine .inl ⟨(ha.depth_eq hold hnew).trans h0, fun b' hb' hb0 => ?_⟩
    obtain ⟨b, hb, hd, hle⟩ := hback b' hb'
    exact hle (hleast b hb (hd.trans hb0))
  · refine .inr ⟨fun b' hb' hb0 => ?_, fun b' hb' => ?_⟩
    · obtain ⟨b, hb, hd, -⟩ := hback b' hb'
      exact hne b hb (hd.trans hb0)
    · obtain ⟨b, hb, -, hle⟩ := hback b' hb'
      exact hle (hleast b hb)

/-! ### Blocks -/

/-- The look-up of the name finds the block behind `a`, which is closed: `inner` is what lies in it
and `b` what lies behind it. -/
structure BlockAt (name t a ind gap inner b : Text) : Prop where
  header : HeaderAt name t a ind gap (inner ++ '}' :: b)
  balanced : isBalanced inner
  preferred : Preferred name t a

/-- What lies in the block of a name. -/
def InBlock (name t inner : Text) : Prop := ∃ a ind gap b, BlockAt name t a ind gap inner b

variable {inner b : Text}

theorem BlockAt.find?_eq (h : BlockAt name t a ind gap inner b) :
    BlockHeader.find? name t = some (.of name a ind gap) := h.header.find?_eq h.preferred

theorem HeaderAt.closeAt?_eq (h : HeaderAt name t a ind gap rest) :
    (BlockHeader.of name a ind gap).closeAt? t =
      (Brace.partner? '{' '}' 0 rest).map ((a ++ (ind ++ name ++ gap)).length + 1 + ·) := by
  rw [BlockHeader.closeAt?, h.split]
  exact Brace.closingOf?_append _ _

theorem BlockAt.closeAt?_eq (h : BlockAt name t a ind gap inner b) :
    (BlockHeader.of name a ind gap).closeAt? t =
      some ((a ++ (ind ++ name ++ gap)).length + 1 + inner.length) := by
  rw [h.header.closeAt?_eq, Brace.partner?_eq_some_iff.mpr ⟨inner, b, rfl, rfl, h.balanced⟩]
  rfl

/-- A look-up finds no block, one that is not closed, or a closed one. -/
theorem find?_cases (name t : Text) :
    BlockHeader.find? name t = none ∨
      (∃ h, BlockHeader.find? name t = some h ∧ h.closeAt? t = none) ∨
      ∃ a ind gap inner b, BlockAt name t a ind gap inner b := by
  cases hfind : BlockHeader.find? name t with
  | none => exact .inl rfl
  | some h =>
      obtain ⟨a, ind, gap, rest, ha, hp, rfl⟩ := exists_preferred hfind
      cases hclose : Brace.partner? '{' '}' 0 rest with
      | none => exact .inr (.inl ⟨_, rfl, by rw [ha.closeAt?_eq, hclose, Option.map_none]⟩)
      | some k =>
          obtain ⟨inner, b, rfl, -, hin⟩ := Brace.partner?_eq_some_iff.mp hclose
          exact .inr (.inr ⟨a, ind, gap, inner, b, ha, hin, hp⟩)

theorem BlockAt.change (h : BlockAt name (before ++ old ++ after) a ind gap inner b)
    (hname : Free name) (hafter : Stops after) (hold : Free old) (hnew : isBalanced new)
    (hbare : Bare name before new) :
    ∃ a' b' inner', BlockAt name (before ++ new ++ after) a' ind gap inner' b' ∧
      (inner' = inner ∨ ∃ r p q, before = r ++ p ∧ after = q ++ '}' :: b ∧
        inner = p ++ old ++ q ∧ inner' = p ++ new ++ q) := by
  obtain ⟨hhead, hin, hp⟩ := h
  have hmoves : ∀ a', Moved before old new a a' → Preferred name (before ++ new ++ after) a' :=
    fun a' ha => hp.moved ha hname hafter hold.isBalanced hnew hbare
  rcases hhead.moved hname hafter (bare_of_free hold.1) new with ⟨z, hz, hrest, h'⟩ | ⟨z, ha, -, h'⟩
  · have hp' := hmoves a (Text.moved_of_split hz old new)
    rcases Text.cases_of_cons_append hrest hold.2 with ⟨q, rfl, rfl⟩ | ⟨x, rfl, rfl⟩
    · have hin' : isBalanced (z ++ new ++ q) := by
        rw [isBalanced, Brace.closes_insert hold.isBalanced] at hin
        rw [isBalanced, Brace.closes_insert hnew]
        exact hin
      exact ⟨a, b, z ++ new ++ q, ⟨by simpa using h', hin', hp'⟩,
        .inr ⟨a ++ (ind ++ name ++ gap) ++ ['{'], z, q, by simpa using hz, rfl, rfl, rfl⟩⟩
    · exact ⟨a, x ++ new ++ after, inner, ⟨by simpa using h', hin, hp'⟩, .inl rfl⟩
  · exact ⟨_, b, inner, ⟨h', hin, hmoves _ (.inr ⟨z, ha, rfl⟩)⟩, .inl rfl⟩

/-! ### Fields in blocks -/

/-- The text holds the field in the blocks of a path, from the outermost inwards. -/
def Holds : List Text → Text → Text → Prop
  | [], field, t => field <:+: t
  | name :: path, field, t => ∃ inner, InBlock name t inner ∧ Holds path field inner

/-- A field stays in its blocks if each piece of the text around the change keeps it. -/
theorem Holds.change_of_kept {path : List Text} {field : Text}
    (h : Holds path field (before ++ old ++ after)) (hpath : ∀ name ∈ path, Free name)
    (hafter : Stops after) (hold : Free old) (hnew : isBalanced new)
    (hbare : ∀ name ∈ path, ∀ p, p <:+ before → Bare name p new)
    (hkept : ∀ p q, p <:+ before → q <+: after → field <:+: p ++ old ++ q →
      field <:+: p ++ new ++ q) : Holds path field (before ++ new ++ after) := by
  induction path generalizing before after with
  | nil => exact hkept _ _ (List.suffix_refl _) (List.prefix_refl _) h
  | cons name path ih =>
      obtain ⟨inner, ⟨a, ind, gap, b, hblock⟩, hinner⟩ := h
      have hname := hpath name (List.mem_cons_self ..)
      obtain ⟨a', b', inner', hblock', rfl | ⟨r, p, q, rfl, rfl, rfl, rfl⟩⟩ :=
        hblock.change hname hafter hold hnew (hbare name (List.mem_cons_self ..) _ (List.suffix_refl _))
      · exact ⟨_, ⟨a', ind, gap, b', hblock'⟩, hinner⟩
      · refine ⟨_, ⟨a', ind, gap, b', hblock'⟩, ?_⟩
        refine ih hinner (fun n hn => hpath n (List.mem_cons_of_mem _ hn)) hafter.left ?_ ?_
        · intro n hn p' hp'
          exact hbare n (List.mem_cons_of_mem _ hn) p' (hp'.trans (List.suffix_append r p))
        · intro p' q' hp' hq'
          exact hkept p' q' (hp'.trans (List.suffix_append r p)) (hq'.trans (List.prefix_append q _))

theorem Holds.change {path : List Text} {field : Text}
    (h : Holds path field (before ++ old ++ after)) (hpath : ∀ name ∈ path, Free name)
    (hafter : Stops after) (hold : Free old) (hnew : isBalanced new)
    (hbare : ∀ name ∈ path, ∀ p, p <:+ before → Bare name p new)
    (hclear : Clear field before old after) : Holds path field (before ++ new ++ after) := by
  refine h.change_of_kept hpath hafter hold hnew hbare ?_
  rintro p q ⟨x, rfl⟩ ⟨y, rfl⟩
  exact hclear.inner.kept

/-- A look-up that finds no closed block finds none after a change. -/
theorem find?_none_of_change (h : BlockHeader.find? name (before ++ old ++ after) = none)
    (hname : Free name) (hafter : Stops after) (hbare : Bare name before new) :
    BlockHeader.find? name (before ++ new ++ after) = none := by
  rw [find?_eq_none_iff] at h ⊢
  intro a ha
  obtain ⟨a', -, ha'⟩ := ha.moved hname hafter hbare old
  exact h a' ha'

theorem unclosed_of_change {h : BlockHeader}
    (hfind : BlockHeader.find? name (before ++ old ++ after) = some h)
    (hclose : h.closeAt? (before ++ old ++ after) = none) (hname : Free name)
    (hafter : Stops after) (hold : Free old) (hnew : isBalanced new)
    (hbare : Bare name before new) :
    ∃ h', BlockHeader.find? name (before ++ new ++ after) = some h' ∧
      h'.closeAt? (before ++ new ++ after) = none := by
  obtain ⟨a, ind, gap, rest, ha, hp, rfl⟩ := exists_preferred hfind
  rw [ha.closeAt?_eq, Option.map_eq_none_iff] at hclose
  have hmoves : ∀ a', Moved before old new a a' → Preferred name (before ++ new ++ after) a' :=
    fun a' hm => hp.moved hm hname hafter hold.isBalanced hnew hbare
  rcases ha.moved hname hafter (bare_of_free hold.1) new with ⟨z, hz, rfl, h'⟩ | ⟨z, ha', -, h'⟩
  · refine ⟨_, h'.find?_eq (hmoves a (Text.moved_of_split hz old new)), ?_⟩
    rw [h'.closeAt?_eq, Option.map_eq_none_iff]
    have e := (Brace.partner?_insert hnew 0 z after).trans
      (Brace.partner?_insert hold.isBalanced 0 z after).symm
    rw [hclose] at e
    rw [← Option.not_isSome_iff_eq_none, e]
    simp
  · refine ⟨_, h'.find?_eq (hmoves _ (.inr ⟨z, ha', rfl⟩)), ?_⟩
    rw [h'.closeAt?_eq, hclose, Option.map_none]

end Graft
