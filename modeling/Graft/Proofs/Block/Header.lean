import Graft.Block.Basic
import Graft.Proofs.Brace
import Graft.Proofs.Text.Line

/-! # Headers of blocks

`HeaderAt` says where a text has a header line for a name.  `find?_eq_some_iff` says which of them
the look-up returns: the first whose line starts at depth zero, or else the first
(`Preferred`). -/

namespace Graft

open Text (AtLineStart)

/-- Behind `a`, the text has a line with the indentation `ind`, the name, the gap `gap` and a brace;
the rest of the text is `rest`. -/
structure HeaderAt (name t a ind gap rest : Text) : Prop where
  split : t = a ++ (ind ++ name ++ gap) ++ '{' :: rest
  lineStart : AtLineStart a
  allIndent : ind.all isIndent
  allGap : gap.all isIndent
  /-- The indentation ends where it does. -/
  indentEnds : ∀ c, (name ++ gap ++ ['{']).head? = some c → isIndent c = false
  oneLine : '\n' ∉ name

/-- The text has a header line for the name behind `a`. -/
def IsHeaderAt (name t a : Text) : Prop := ∃ ind gap rest, HeaderAt name t a ind gap rest

/-- Among the header lines, the one behind `a` is the first at depth zero, or the first of all if
none is at depth zero. -/
def Preferred (name t a : Text) : Prop :=
  (Brace.depth a = 0 ∧ ∀ a', IsHeaderAt name t a' → Brace.depth a' = 0 → a.length ≤ a'.length) ∨
    ((∀ a', IsHeaderAt name t a' → Brace.depth a' ≠ 0) ∧
      ∀ a', IsHeaderAt name t a' → a.length ≤ a'.length)

/-- The header that the look-up returns for a header line. -/
def BlockHeader.of (name a ind gap : Text) : BlockHeader :=
  ⟨a.length, ind, (a ++ (ind ++ name ++ gap)).length⟩

variable {name t a a' ind ind' gap gap' rest rest' : Text}

/-! ### Single lines -/

theorem leadingIndent_append {s : Text} (hi : ind.all isIndent)
    (hs : ∀ c, s.head? = some c → isIndent c = false) : Text.leadingIndent (ind ++ s) = ind := by
  have h : s.takeWhile isIndent = [] := by
    cases s with
    | nil => rfl
    | cons c s => rw [List.takeWhile_cons, hs c rfl, if_neg Bool.false_ne_true]
  rw [Text.leadingIndent, List.takeWhile_append_of_pos (by simpa using hi), h, List.append_nil]

theorem all_leadingIndent (t : Text) : (Text.leadingIndent t).all isIndent := by
  rw [Text.leadingIndent, List.all_takeWhile]

/-- A text is its leading indentation and a rest that starts with something else. -/
theorem exists_leadingIndent (t : Text) :
    ∃ s, t = t.leadingIndent ++ s ∧ t.drop t.leadingIndent.length = s ∧
      ∀ c, s.head? = some c → isIndent c = false := by
  have hsplit : t = t.leadingIndent ++ t.dropWhile isIndent :=
    List.takeWhile_append_dropWhile.symm
  refine ⟨t.dropWhile isIndent, hsplit, ?_, fun c hc => ?_⟩
  · have h := congrArg (List.drop t.leadingIndent.length) hsplit
    rwa [List.drop_left] at h
  have h := List.head?_dropWhile_not isIndent t
  rw [hc] at h
  simpa using h

/-- What decides where the indentation of a header line ends. -/
theorem head?_header (name gap rest : Text) :
    (name ++ (gap ++ '{' :: rest)).head? = (name ++ gap ++ ['{']).head? := by
  simp [List.head?_append]

theorem ofLine?_eq_some_iff {line : Text} {start : Nat} {h : BlockHeader} :
    BlockHeader.ofLine? name start line = some h ↔
      ∃ ind gap rest, line = (ind ++ name ++ gap) ++ '{' :: rest ∧ ind.all isIndent ∧
        gap.all isIndent ∧ (∀ c, (name ++ gap ++ ['{']).head? = some c → isIndent c = false) ∧
        h = ⟨start, ind, start + (ind ++ name ++ gap).length⟩ := by
  constructor
  · intro h
    obtain ⟨s, hs, hdrop, hends⟩ := exists_leadingIndent line
    simp only [BlockHeader.ofLine?, hdrop, Option.bind_eq_bind, Option.bind_eq_some_iff,
      Text.after?_eq_some_iff, Option.ite_none_right_eq_some, Option.some.injEq] at h
    obtain ⟨r, rfl, hopen, rfl⟩ := h
    obtain ⟨r', hr', hdrop', -⟩ := exists_leadingIndent r
    rw [hdrop'] at hopen
    obtain ⟨rest, rfl⟩ := List.head?_eq_some_iff.mp hopen
    refine ⟨_, _, rest, ?_, all_leadingIndent line, all_leadingIndent r, ?_, ?_⟩
    · rw [List.append_assoc, List.append_assoc, ← hr', ← hs]
    · intro c hc
      refine hends c ?_
      rw [hr', head?_header]
      exact hc
    · simp only [List.length_append, Nat.add_assoc]
  · rintro ⟨ind, gap, rest, rfl, hind, hgap, hends, rfl⟩
    have hlead : Text.leadingIndent ((ind ++ name ++ gap) ++ '{' :: rest) = ind := by
      rw [List.append_assoc, List.append_assoc]
      refine leadingIndent_append hind fun c hc => hends c ?_
      rw [← hc, head?_header]
    have hgap' : Text.leadingIndent (gap ++ '{' :: rest) = gap :=
      leadingIndent_append hgap fun c hc => by
        obtain rfl : '{' = c := by simpa using hc
        rfl
    have hafter : name.after? (((ind ++ name ++ gap) ++ '{' :: rest).drop ind.length) =
        some (gap ++ '{' :: rest) := by
      rw [Text.after?_eq_some_iff]
      simp
    simp only [BlockHeader.ofLine?, hlead, hafter, Option.bind_eq_bind, Option.bind_some, hgap',
      List.drop_left, List.head?_cons, if_true, List.length_append, Nat.add_assoc]

/-! ### All lines -/

theorem mem_onLines {start : Nat} {depth d : Int} {ls : List Text} {h : BlockHeader} :
    (d, h) ∈ BlockHeader.onLines name start depth ls ↔
      ∃ ls1 l ls2, ls = ls1 ++ l :: ls2 ∧
        BlockHeader.ofLine? name (start + ls1.flatten.length) l = some h ∧
        d = depth + Brace.depth ls1.flatten := by
  induction ls generalizing start depth with
  | nil => simp [BlockHeader.onLines]
  | cons l ls ih =>
      have hmem : (d, h) ∈ BlockHeader.onLines name start depth (l :: ls) ↔
          (BlockHeader.ofLine? name start l = some h ∧ d = depth) ∨
            (d, h) ∈ BlockHeader.onLines name (start + l.length) (depth + Brace.depth l) ls := by
        rw [BlockHeader.onLines]
        cases BlockHeader.ofLine? name start l with
        | none => simp
        | some h' => simp [Prod.ext_iff, and_comm, eq_comm (a := h)]
      rw [hmem, ih]
      constructor
      · rintro (⟨h1, rfl⟩ | ⟨ls1, l', ls2, rfl, h1, rfl⟩)
        · exact ⟨[], l, ls, rfl, h1, by simp⟩
        · refine ⟨l :: ls1, l', ls2, rfl, ?_, ?_⟩
          · simpa [Nat.add_assoc] using h1
          · simp [Int.add_assoc]
      · rintro ⟨ls1, l', ls2, e, h1, rfl⟩
        cases ls1 with
        | nil =>
            obtain ⟨rfl, rfl⟩ := List.cons.inj e
            exact .inl ⟨h1, by simp⟩
        | cons l1 ls1 =>
            obtain ⟨rfl, rfl⟩ := List.cons.inj e
            refine .inr ⟨ls1, l', ls2, rfl, ?_, ?_⟩
            · simpa [Nat.add_assoc] using h1
            · simp [Int.add_assoc]

theorem lineStart_of_mem_onLines {start : Nat} {depth d : Int} {ls : List Text} {h : BlockHeader}
    (hmem : (d, h) ∈ BlockHeader.onLines name start depth ls) : start ≤ h.lineStart := by
  obtain ⟨ls1, l, ls2, -, hline, -⟩ := mem_onLines.mp hmem
  obtain ⟨ind, gap, rest, -, -, -, -, rfl⟩ := ofLine?_eq_some_iff.mp hline
  exact Nat.le_add_right _ _

/-- The headers are listed from left to right. -/
theorem pairwise_onLines {ls : List Text} (hls : [] ∉ ls) (start : Nat) (depth : Int) :
    (BlockHeader.onLines name start depth ls).Pairwise fun x y => x.2.lineStart < y.2.lineStart := by
  induction ls generalizing start depth with
  | nil => exact List.Pairwise.nil
  | cons l ls ih =>
      rw [List.mem_cons, not_or] at hls
      have hrest := ih hls.2 (start + l.length) (depth + Brace.depth l)
      rw [BlockHeader.onLines]
      cases hline : BlockHeader.ofLine? name start l with
      | none => exact hrest
      | some h =>
          refine List.Pairwise.cons (fun y hy => ?_) hrest
          have hstart := lineStart_of_mem_onLines hy
          obtain ⟨ind, gap, rest, -, -, -, -, rfl⟩ := ofLine?_eq_some_iff.mp hline
          have hlen : 0 < l.length := List.length_pos_iff.mpr (Ne.symm hls.1)
          change start < y.2.lineStart
          omega

/-! ### Header lines of a text -/

theorem newline_notMem_of_all {s : Text} (h : s.all isIndent) : '\n' ∉ s := by
  intro hmem
  have := List.all_eq_true.mp h _ hmem
  simp [isIndent] at this

theorem HeaderAt.newline_notMem (h : HeaderAt name t a ind gap rest) :
    '\n' ∉ ind ++ name ++ gap := by
  simp only [List.mem_append, not_or]
  exact ⟨⟨newline_notMem_of_all h.allIndent, h.oneLine⟩, newline_notMem_of_all h.allGap⟩

theorem mem_headers {d : Int} {h : BlockHeader} :
    (d, h) ∈ BlockHeader.onLines name 0 0 t.pieces ↔
      ∃ a ind gap rest, HeaderAt name t a ind gap rest ∧ d = Brace.depth a ∧
        h = BlockHeader.of name a ind gap := by
  rw [mem_onLines]
  constructor
  · rintro ⟨ls1, l, ls2, hpieces, hline, rfl⟩
    obtain ⟨ind, gap, rest, rfl, hind, hgap, hends, rfl⟩ := ofLine?_eq_some_iff.mp hline
    have hsplit := Text.flatten_pieces t
    rw [hpieces, List.flatten_append, List.flatten_cons] at hsplit
    have hnl := Text.newline_notMem_of_pieces hpieces
    simp only [List.mem_append, not_or] at hnl
    refine ⟨ls1.flatten, ind, gap, rest ++ ls2.flatten, ⟨?_, Text.atLineStart_of_pieces hpieces,
      hind, hgap, hends, hnl.1.2⟩, Int.zero_add _, ?_⟩
    · rw [← hsplit]
      simp
    · simp only [BlockHeader.of, Nat.zero_add, List.length_append]
  · rintro ⟨a, ind, gap, rest, h, rfl, rfl⟩
    obtain ⟨z, ls, hz⟩ := Text.exists_first_piece (y := rest) h.newline_notMem (c := '{') (by decide)
    refine ⟨a.pieces, ind ++ name ++ gap ++ '{' :: z, ls, ?_, ?_, ?_⟩
    · rw [h.split, List.append_assoc, Text.pieces_append h.lineStart, hz]
    · rw [Text.flatten_pieces, ofLine?_eq_some_iff]
      refine ⟨ind, gap, z, rfl, h.allIndent, h.allGap, h.indentEnds, ?_⟩
      simp only [BlockHeader.of, Nat.zero_add, List.length_append]
    · rw [Text.flatten_pieces, Int.zero_add]

/-- A line is the header line of a name in one way. -/
theorem HeaderAt.unique (h : HeaderAt name t a ind gap rest)
    (h' : HeaderAt name t a ind' gap' rest') : ind = ind' ∧ gap = gap' ∧ rest = rest' := by
  have e : ind ++ (name ++ (gap ++ '{' :: rest)) = ind' ++ (name ++ (gap' ++ '{' :: rest')) := by
    have e := h.split.symm.trans h'.split
    simpa using e
  have hlead : ∀ {ind gap rest}, HeaderAt name t a ind gap rest →
      Text.leadingIndent (ind ++ (name ++ (gap ++ '{' :: rest))) = ind := fun h =>
    leadingIndent_append h.allIndent fun c hc => h.indentEnds c (by rwa [head?_header] at hc)
  have hgap : ∀ {ind gap rest}, HeaderAt name t a ind gap rest →
      Text.leadingIndent (gap ++ '{' :: rest) = gap := fun h =>
    leadingIndent_append h.allGap fun c hc => by
      obtain rfl : '{' = c := by simpa using hc
      rfl
  obtain rfl : ind = ind' := by rw [← hlead h, e, hlead h']
  have e' := List.append_cancel_left (List.append_cancel_left e)
  obtain rfl : gap = gap' := by rw [← hgap h, e', hgap h']
  exact ⟨rfl, rfl, (List.cons.inj (List.append_cancel_left e')).2⟩

theorem HeaderAt.isHeaderAt (h : HeaderAt name t a ind gap rest) : IsHeaderAt name t a :=
  ⟨ind, gap, rest, h⟩

theorem IsHeaderAt.prefix (h : IsHeaderAt name t a) : a <+: t := by
  obtain ⟨ind, gap, rest, h⟩ := h
  exact ⟨_, by rw [h.split, List.append_assoc]⟩

theorem Preferred.unique (ha : IsHeaderAt name t a) (h : Preferred name t a)
    (ha' : IsHeaderAt name t a') (h' : Preferred name t a') : a = a' := by
  have hlen : a.length = a'.length := by
    rcases h with ⟨h0, h⟩ | ⟨h0, h⟩ <;> rcases h' with ⟨h0', h'⟩ | ⟨h0', h'⟩
    · exact Nat.le_antisymm (h a' ha' h0') (h' a ha h0)
    · exact absurd h0 (h0' a ha)
    · exact absurd h0' (h0 a' ha')
    · exact Nat.le_antisymm (h a' ha') (h' a ha)
  exact List.IsPrefix.eq_of_length (List.prefix_of_prefix_length_le ha.prefix ha'.prefix
    (Nat.le_of_eq hlen)) hlen

/-! ### The look-up -/

theorem least_of_pairwise {α : Type} {f : α → Nat} {p : α → Bool} {l : List α} {x : α}
    (hl : l.Pairwise fun x y => f x < f y) (hx : l.find? p = some x) :
    ∀ y ∈ l, p y → f x ≤ f y := by
  obtain ⟨-, as, bs, rfl, has⟩ := List.find?_eq_some_iff_append.mp hx
  intro y hy hpy
  rcases List.mem_append.mp hy with h | h
  · have := has y h
    rw [hpy] at this
    simp at this
  · rcases List.mem_cons.mp h with rfl | h
    · exact Nat.le_refl _
    · have hcons := (List.pairwise_append.mp hl).2.1
      exact Nat.le_of_lt ((List.pairwise_cons.mp hcons).1 y h)

/-- The first header line satisfying a condition comes before all others that do. -/
theorem exists_first_header {p : Int × BlockHeader → Bool} {x : Int × BlockHeader}
    (hx : (BlockHeader.onLines name 0 0 t.pieces).find? p = some x) :
    ∃ a ind gap rest, HeaderAt name t a ind gap rest ∧
      x = (Brace.depth a, BlockHeader.of name a ind gap) ∧
      ∀ a' ind' gap' rest', HeaderAt name t a' ind' gap' rest' →
        p (Brace.depth a', BlockHeader.of name a' ind' gap') → a.length ≤ a'.length := by
  obtain ⟨d, h⟩ := x
  have hleast := least_of_pairwise (f := fun x => x.2.lineStart)
    (pairwise_onLines (Text.nil_notMem_pieces t) 0 0) hx
  obtain ⟨a, ind, gap, rest, ha, rfl, rfl⟩ := mem_headers.mp (List.mem_of_find?_eq_some hx)
  refine ⟨a, ind, gap, rest, ha, rfl, fun a' ind' gap' rest' ha' hp => ?_⟩
  exact hleast _ (mem_headers.mpr ⟨a', ind', gap', rest', ha', rfl, rfl⟩) hp

theorem exists_preferred {h : BlockHeader} (hfind : BlockHeader.find? name t = some h) :
    ∃ a ind gap rest, HeaderAt name t a ind gap rest ∧ Preferred name t a ∧
      h = BlockHeader.of name a ind gap := by
  obtain ⟨⟨d, h⟩, hpick, rfl⟩ := Option.map_eq_some_iff.mp hfind
  cases hzero : (BlockHeader.onLines name 0 0 t.pieces).find? (·.1 = 0) with
  | some x =>
      rw [hzero] at hpick
      obtain rfl : x = (d, h) := Option.some.inj hpick
      obtain ⟨a, ind, gap, rest, ha, e, hleast⟩ := exists_first_header hzero
      obtain ⟨rfl, rfl⟩ := Prod.mk.inj e
      have hd := List.find?_some hzero
      refine ⟨a, ind, gap, rest, ha, .inl ⟨by simpa using hd, ?_⟩, rfl⟩
      rintro a' ⟨ind', gap', rest', ha'⟩ h0
      exact hleast a' ind' gap' rest' ha' (by simpa using h0)
  | none =>
      rw [hzero] at hpick
      have hhead : (BlockHeader.onLines name 0 0 t.pieces).find? (fun _ => true) = some (d, h) := by
        obtain ⟨ys, hys⟩ := List.head?_eq_some_iff.mp hpick
        rw [hys]
        rfl
      obtain ⟨a, ind, gap, rest, ha, e, hleast⟩ := exists_first_header hhead
      obtain ⟨rfl, rfl⟩ := Prod.mk.inj e
      refine ⟨a, ind, gap, rest, ha, .inr ⟨?_, ?_⟩, rfl⟩
      · rintro a' ⟨ind', gap', rest', ha'⟩ h0
        have := List.find?_eq_none.mp hzero _
          (mem_headers.mpr ⟨a', ind', gap', rest', ha', rfl, rfl⟩)
        simp [h0] at this
      · rintro a' ⟨ind', gap', rest', ha'⟩
        exact hleast a' ind' gap' rest' ha' rfl

theorem find?_eq_none_iff : BlockHeader.find? name t = none ↔ ∀ a, ¬IsHeaderAt name t a := by
  constructor
  · rintro hfind a ⟨ind, gap, rest, ha⟩
    have hmem := mem_headers.mpr ⟨a, ind, gap, rest, ha, rfl, rfl⟩
    obtain ⟨hzero, hhead⟩ : (BlockHeader.onLines name 0 0 t.pieces).find? (·.1 = 0) = none ∧
        (BlockHeader.onLines name 0 0 t.pieces).head? = none := by
      have h := Option.map_eq_none_iff.mp hfind
      revert h
      cases (BlockHeader.onLines name 0 0 t.pieces).find? (·.1 = 0) with
      | none => exact fun h => ⟨rfl, h⟩
      | some x => exact fun h => absurd h (by simp)
    rw [List.head?_eq_none_iff.mp hhead] at hmem
    simp at hmem
  · intro hno
    cases hfind : BlockHeader.find? name t with
    | none => rfl
    | some h =>
        obtain ⟨a, ind, gap, rest, ha, -⟩ := exists_preferred hfind
        exact absurd ha.isHeaderAt (hno a)

/-- The look-up returns the preferred header line. -/
theorem HeaderAt.find?_eq (ha : HeaderAt name t a ind gap rest) (hp : Preferred name t a) :
    BlockHeader.find? name t = some (.of name a ind gap) := by
  cases hfind : BlockHeader.find? name t with
  | none => exact absurd ha.isHeaderAt (find?_eq_none_iff.mp hfind a)
  | some h =>
      obtain ⟨a', ind', gap', rest', ha', hp', rfl⟩ := exists_preferred hfind
      obtain rfl := Preferred.unique ha.isHeaderAt hp ha'.isHeaderAt hp'
      obtain ⟨rfl, rfl, -⟩ := ha.unique ha'
      rfl

theorem find?_eq_some_iff {h : BlockHeader} :
    BlockHeader.find? name t = some h ↔
      ∃ a ind gap rest, HeaderAt name t a ind gap rest ∧ Preferred name t a ∧
        h = BlockHeader.of name a ind gap := by
  refine ⟨exists_preferred, ?_⟩
  rintro ⟨a, ind, gap, rest, ha, hp, rfl⟩
  exact ha.find?_eq hp

end Graft
