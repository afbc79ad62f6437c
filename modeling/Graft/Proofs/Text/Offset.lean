import Graft.Proofs.Text.Line
import Graft.Text.Offset
import Mathlib.Logic.Function.Iterate
import Mathlib.Order.Bounds.Defs

/-! # Lines by byte offset

A byte offset stands for the last character boundary at or before it.  The two line questions, asked
at any offset, answer with the piece of the text that holds this boundary (`PieceAt`), of which there
is one only.  So going from one line start to the next visits the pieces one by one
(`lineOffsets_eq_pieces`). -/

namespace Graft.Text

variable {t a p p' x l m r : Text} {before before' after after' : List Text} {c : Char}
  {offset start start' pos : Nat}

/-! ### Boundaries -/

/-- A character of the text starts at the offset, or the text ends there. -/
def IsBoundary (t : Text) (offset : Nat) : Prop := ∃ a b, t = a ++ b ∧ byteLength a = offset

/-- `p` is what the text has between two offsets. -/
def IsSlice (t : Text) (start stop : Nat) (p : Text) : Prop :=
  ∃ a b, t = a ++ p ++ b ∧ byteLength a = start ∧ byteLength a + byteLength p = stop

theorem byteOffset_floorPos_le (t : Text) (offset : Nat) :
    byteOffset t (floorPos t offset) ≤ offset := by
  induction t generalizing offset with
  | nil => exact Nat.zero_le _
  | cons c t ih =>
      rw [floorPos]
      split
      · exact Nat.zero_le _
      · have := ih (offset - c.utf8Size)
        unfold byteOffset at this ⊢
        rw [List.take_succ_cons, byteLength_cons]
        omega

/-- The position an offset stands for is behind everything that ends at or before the offset. -/
theorem byteLength_le_byteOffset_floorPos (h : byteLength a ≤ offset) (b : Text) :
    byteLength a ≤ byteOffset (a ++ b) (floorPos (a ++ b) offset) := by
  induction a generalizing offset with
  | nil => exact Nat.zero_le _
  | cons c a ih =>
      rw [byteLength_cons] at h ⊢
      have hrest : byteLength a ≤ offset - c.utf8Size := by omega
      rw [List.cons_append, floorPos, if_neg (by omega), byteOffset, List.take_succ_cons,
        byteLength_cons]
      exact Nat.add_le_add_left (ih hrest) _

theorem byteOffset_le (t : Text) (pos : Nat) : byteOffset t pos ≤ byteLength t := by
  have h := byteLength_append (t.take pos) (t.drop pos)
  rw [List.take_append_drop] at h
  rw [byteOffset, h]
  exact Nat.le_add_right _ _

theorem isGreatest_byteOffset_floorPos (t : Text) (offset : Nat) :
    IsGreatest {n | IsBoundary t n ∧ n ≤ min offset (byteLength t)}
      (byteOffset t (floorPos t offset)) := by
  constructor
  · exact ⟨⟨t.take (floorPos t offset), t.drop (floorPos t offset),
      (List.take_append_drop ..).symm, rfl⟩,
      Nat.le_min.mpr ⟨byteOffset_floorPos_le t offset, byteOffset_le t _⟩⟩
  · rintro n ⟨⟨a, b, rfl, rfl⟩, hn⟩
    exact byteLength_le_byteOffset_floorPos (Nat.le_trans hn (Nat.min_le_left _ _)) b

/-! ### Offsets of positions -/

theorem byteOffset_succ (h : t[pos]? = some c) :
    byteOffset t (pos + 1) = byteOffset t pos + c.utf8Size := by
  rw [byteOffset, byteOffset, List.take_add_one, h, byteLength_append]
  rfl

theorem byteOffset_append_length (s t : Text) (pos : Nat) :
    byteOffset (s ++ t) (pos + s.length) = byteOffset t pos + byteLength s := by
  rw [byteOffset, byteOffset, Nat.add_comm, List.take_length_add_append, byteLength_append, Nat.add_comm]

theorem byteOffset_append_left {s : Text} (h : pos ≤ s.length) (t : Text) :
    byteOffset (s ++ t) pos = byteOffset s pos := by
  rw [byteOffset, byteOffset, List.take_append_of_le_length h]

theorem byteOffset_mono {pos' : Nat} (h : pos ≤ pos') (t : Text) :
    byteOffset t pos ≤ byteOffset t pos' := by
  obtain ⟨n, rfl⟩ := Nat.exists_eq_add_of_le h
  rw [byteOffset, byteOffset, List.take_add, byteLength_append]
  exact Nat.le_add_right _ _

theorem lineStartOffset_byteOffset (h : pos ≤ t.length) :
    lineStartOffset t (byteOffset t pos) = byteOffset t (t.lineStart pos) := by
  rw [lineStartOffset, floorPos_byteOffset h]

theorem nextLineStartOffset_byteOffset (h : pos ≤ t.length) :
    nextLineStartOffset t (byteOffset t pos) = byteOffset t (t.nextLineStart pos) := by
  rw [nextLineStartOffset, floorPos_byteOffset h]

theorem isBoundary_byteOffset (t : Text) (pos : Nat) : IsBoundary t (byteOffset t pos) :=
  ⟨t.take pos, t.drop pos, (List.take_append_drop ..).symm, rfl⟩

/-! ### The line around a position -/

namespace Around

variable (h : Around t pos x l m r)

include h

theorem byteOffset_eq : byteOffset t pos = byteLength (x ++ l) := by
  rw [h.split, ← h.length_eq, byteOffset_append]

theorem byteOffset_lineStart : byteOffset t (t.lineStart pos) = byteLength x := by
  rw [h.lineStart_eq]
  conv => lhs; rw [h.split_line, List.append_assoc, byteOffset_append]

theorem byteOffset_nextLineStart : byteOffset t (t.nextLineStart pos) =
    byteLength x + byteLength (l ++ m ++ r.take 1) := by
  rw [h.nextLineStart_eq, ← byteLength_append]
  conv => lhs; rw [h.split_line, byteOffset_append]

end Around

/-! ### The piece at an offset -/

/-- The piece that holds an offset, and where it starts.  The end of a text belongs to the last
piece if no newline ends it, and to an empty piece behind the text otherwise. -/
inductive PieceAt (t : Text) (offset : Nat) : Nat → Text → Prop where
  | inside {before after : List Text} {p : Text} : pieces t = before ++ p :: after →
      byteLength before.flatten ≤ offset → offset < byteLength before.flatten + byteLength p →
      PieceAt t offset (byteLength before.flatten) p
  | last {before : List Text} {p : Text} : pieces t = before ++ [p] → t.getLast? ≠ some '\n' →
      offset = byteLength t → PieceAt t offset (byteLength before.flatten) p
  | behind : AtLineStart t → offset = byteLength t → PieceAt t offset (byteLength t) []

/-- The line around a position is the piece that holds it. -/
theorem Around.pieceAt (h : Around t pos x l m r) :
    PieceAt t (byteLength (x ++ l)) (byteLength x) (l ++ m ++ r.take 1) := by
  have hx := flatten_pieces x
  by_cases hrest : m ++ r.take 1 = []
  · -- the position is the end of the text
    obtain ⟨rfl, hr⟩ := List.append_eq_nil_iff.mp hrest
    obtain rfl : r = [] := by simpa using hr
    have hend : t = x ++ l := by simpa using h.split
    by_cases hl : l = []
    · subst hl
      rw [List.append_nil] at hend ⊢
      rw [hend]
      exact .behind h.lineStart rfl
    · have hpieces := h.pieces_eq (by simpa using hl)
      have hlast : t.getLast? ≠ some '\n' := fun he =>
        hl ((hend ▸ .inr he : AtLineStart (x ++ l)).eq_nil h.before)
      have hat := PieceAt.last hpieces hlast (congrArg byteLength hend.symm)
      rwa [hx] at hat
  · have hne : l ++ m ++ r.take 1 ≠ [] := by
      rw [List.append_assoc]
      exact fun he => hrest (List.append_eq_nil_iff.mp he).2
    have hle : byteLength (pieces x).flatten ≤ byteLength (x ++ l) := by
      rw [hx, byteLength_append]
      exact Nat.le_add_right _ _
    have hlt : byteLength (x ++ l) <
        byteLength (pieces x).flatten + byteLength (l ++ m ++ r.take 1) := by
      have := byteLength_pos hrest
      simp only [hx, byteLength_append] at this ⊢
      omega
    have hat := PieceAt.inside (h.pieces_eq hne) hle hlt
    rwa [hx] at hat

theorem byteLength_append_le (before after : List Text) (p : Text) :
    byteLength before.flatten + byteLength p ≤ byteLength (before ++ p :: after).flatten := by
  rw [List.flatten_append, List.flatten_cons, byteLength_append, byteLength_append, ← Nat.add_assoc]
  exact Nat.le_add_right _ _

theorem byteLength_piece_le (h : pieces t = before ++ p :: after) :
    byteLength before.flatten + byteLength p ≤ byteLength t := by
  conv => rhs; rw [← flatten_pieces t, h]
  exact byteLength_append_le before after p

/-- Two of some pieces that both end behind the start of the other are the same. -/
theorem eq_of_overlap (e : before ++ p :: after = before' ++ p' :: after')
    (h : byteLength before.flatten < byteLength before'.flatten + byteLength p')
    (h' : byteLength before'.flatten < byteLength before.flatten + byteLength p) :
    before = before' ∧ p = p' := by
  rcases List.append_eq_append_iff.mp e with ⟨z, rfl, hz⟩ | ⟨z, rfl, hz⟩
  · cases z with
    | nil => exact ⟨(List.append_nil _).symm, (List.cons.inj hz).1⟩
    | cons q z =>
        obtain ⟨rfl, -⟩ := List.cons.inj hz
        have := byteLength_append_le before z p
        omega
  · cases z with
    | nil => exact ⟨List.append_nil _, (List.cons.inj hz).1.symm⟩
    | cons q z =>
        obtain ⟨rfl, -⟩ := List.cons.inj hz
        have := byteLength_append_le before' z p'
        omega

namespace PieceAt

/-- An offset lies between the start and the end of the piece that holds it. -/
theorem bounds (h : PieceAt t offset start p) : start ≤ offset ∧ offset ≤ start + byteLength p := by
  cases h with
  | inside _ hle hlt => exact ⟨hle, Nat.le_of_lt hlt⟩
  | last hp _ hoffset =>
      have hlen := congrArg byteLength (flatten_pieces t)
      rw [hp, List.flatten_append, List.flatten_singleton, byteLength_append] at hlen
      omega
  | behind _ hoffset => exact ⟨Nat.le_of_eq hoffset.symm, Nat.le_of_eq hoffset⟩

/-- At most one piece holds an offset. -/
theorem unique (h : PieceAt t offset start p) (h' : PieceAt t offset start' p') :
    start = start' ∧ p = p' := by
  -- a text with a last piece that no newline ends is not at a line start
  have hends : ∀ {before : List Text} {p : Text}, pieces t = before ++ [p] →
      t.getLast? ≠ some '\n' → ¬AtLineStart t := by
    rintro before p hp hlast (rfl | hline)
    · simp [pieces] at hp
    · exact hlast hline
  cases h with
  | inside hp hle hlt =>
      have hlen := byteLength_piece_le hp
      cases h' with
      | inside hp' hle' hlt' =>
          obtain ⟨rfl, rfl⟩ := eq_of_overlap (hp.symm.trans hp') (by omega) (by omega)
          exact ⟨rfl, rfl⟩
      | last _ _ hoffset => omega
      | behind _ hoffset => omega
  | last hp hlast hoffset =>
      cases h' with
      | inside hp' _ hlt' =>
          have := byteLength_piece_le hp'
          omega
      | last hp' _ _ =>
          obtain ⟨rfl, e⟩ := List.append_inj' (hp.symm.trans hp') rfl
          exact ⟨rfl, (List.cons.inj e).1⟩
      | behind hline _ => exact absurd hline (hends hp hlast)
  | behind hline hoffset =>
      cases h' with
      | inside hp' _ hlt' =>
          have := byteLength_piece_le hp'
          omega
      | last hp' hlast _ => exact absurd hline (hends hp' hlast)
      | behind _ _ => exact ⟨rfl, rfl⟩

end PieceAt

/-- The two line questions find the piece that holds the boundary an offset stands for. -/
theorem exists_pieceAt (t : Text) (offset : Nat) :
    ∃ p, PieceAt t (byteOffset t (floorPos t offset)) (lineStartOffset t offset) p ∧
      IsSlice t (lineStartOffset t offset) (nextLineStartOffset t offset) p := by
  obtain ⟨x, l, m, r, h⟩ := exists_around (floorPos_le_length t offset)
  refine ⟨l ++ m ++ r.take 1, ?_, x, r.drop 1, h.split_line, h.byteOffset_lineStart.symm,
    h.byteOffset_nextLineStart.symm⟩
  rw [h.byteOffset_eq, lineStartOffset, h.byteOffset_lineStart]
  exact h.pieceAt

/-! ### From line to line -/

/-- From where a piece starts, the next line starts behind it. -/
theorem nextLineStartOffset_piece (h : pieces t = before ++ p :: after) :
    nextLineStartOffset t (byteLength before.flatten) =
      byteLength before.flatten + byteLength p := by
  have hfloor : byteOffset t (floorPos t (byteLength before.flatten)) =
      byteLength before.flatten := by
    have ht : t = before.flatten ++ (p :: after).flatten := by
      rw [← List.flatten_append, ← h, flatten_pieces]
    rw [ht, floorPos_append, byteOffset_append]
  have hne : p ≠ [] := by
    rintro rfl
    exact nil_notMem_pieces t (by rw [h]; simp)
  have hin : PieceAt t (byteLength before.flatten) (byteLength before.flatten) p :=
    .inside h (Nat.le_refl _) (Nat.lt_add_of_pos_right (byteLength_pos hne))
  obtain ⟨q, hat, a, b, -, hstart, hstop⟩ := exists_pieceAt t (byteLength before.flatten)
  rw [hfloor] at hat
  obtain ⟨e, rfl⟩ := hat.unique hin
  rw [← hstop, hstart, e]

theorem nextLineStartOffset_byteLength (t : Text) :
    nextLineStartOffset t (byteLength t) = byteLength t := by
  have hpos : floorPos t (byteLength t) = t.length := by
    have := floorPos_append t []
    rwa [List.append_nil] at this
  have hnext : t.nextLineStart t.length = t.length := by
    rw [nextLineStart]
    omega
  rw [nextLineStartOffset, hpos, hnext, byteOffset, List.take_length]

theorem pieces_eq_of_getElem? {k : Nat} (h : (pieces t)[k]? = some p) :
    pieces t = (pieces t).take k ++ p :: (pieces t).drop (k + 1) := by
  obtain ⟨hk, rfl⟩ := List.getElem?_eq_some_iff.mp h
  rw [← List.drop_eq_getElem_cons hk, List.take_append_drop]

/-- Going to the next line `k` times from the start leads behind the first `k` pieces. -/
theorem iterate_nextLineStartOffset (t : Text) (k : Nat) :
    (nextLineStartOffset t)^[k] 0 = byteLength ((pieces t).take k).flatten := by
  induction k with
  | zero => rfl
  | succ k ih =>
      rw [Function.iterate_succ_apply', ih]
      cases hk : (pieces t)[k]? with
      | none =>
          have hlen := List.getElem?_eq_none_iff.mp hk
          rw [List.take_of_length_le hlen, List.take_of_length_le (Nat.le_succ_of_le hlen),
            flatten_pieces, nextLineStartOffset_byteLength]
      | some p =>
          rw [nextLineStartOffset_piece (pieces_eq_of_getElem? hk), List.take_add_one, hk,
            Option.toList_some, List.flatten_append, List.flatten_singleton, byteLength_append]

/-- A byte offset asks for the piece that holds the last character boundary at or before it, and going
from one line start to the next visits the pieces in order, each once, up to the end. -/
theorem lineOffsets_eq_pieces (t : Text) :
    (∀ offset, ∃ f p, IsGreatest {n | IsBoundary t n ∧ n ≤ min offset (byteLength t)} f ∧
      lineStartOffset t offset ≤ f ∧ f ≤ nextLineStartOffset t offset ∧
        PieceAt t f (lineStartOffset t offset) p ∧
          IsSlice t (lineStartOffset t offset) (nextLineStartOffset t offset) p) ∧
    (∀ k p, (pieces t)[k]? = some p →
      IsSlice t ((nextLineStartOffset t)^[k] 0) ((nextLineStartOffset t)^[k + 1] 0) p) ∧
    ∀ k, (nextLineStartOffset t)^[k] 0 = byteLength t ↔ (pieces t).length ≤ k := by
  refine ⟨fun offset => ?_, fun k p hk => ?_, fun k => ?_⟩
  · obtain ⟨p, hat, a, b, ht, hstart, hstop⟩ := exists_pieceAt t offset
    have hbounds := hat.bounds
    exact ⟨_, p, isGreatest_byteOffset_floorPos t offset, hbounds.1, by omega, hat, a, b, ht, hstart,
      hstop⟩
  · have hpieces := pieces_eq_of_getElem? hk
    refine ⟨((pieces t).take k).flatten, ((pieces t).drop (k + 1)).flatten, ?_,
      (iterate_nextLineStartOffset t k).symm, ?_⟩
    · rw [List.append_assoc, ← List.flatten_cons, ← List.flatten_append, ← hpieces, flatten_pieces]
    · rw [Function.iterate_succ_apply', iterate_nextLineStartOffset, nextLineStartOffset_piece hpieces]
  · rw [iterate_nextLineStartOffset]
    constructor
    · intro hend
      refine Nat.le_of_not_lt fun hk => ?_
      have hpieces := pieces_eq_of_getElem? (List.getElem?_eq_getElem hk)
      have hne : (pieces t)[k] ≠ [] := fun e => nil_notMem_pieces t (e ▸ List.getElem_mem hk)
      have := byteLength_piece_le hpieces
      have := byteLength_pos hne
      omega
    · intro hk
      rw [List.take_of_length_le hk, flatten_pieces]

-- inside a character, on the newline behind it, and past the end
example : [1, 2, 9].map (lineStartOffset "é\nb".toList) = [0, 0, 3] ∧
    [1, 2, 9].map (nextLineStartOffset "é\nb".toList) = [3, 3, 4] := by decide

end Graft.Text
