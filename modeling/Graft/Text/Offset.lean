import Graft.Text.Line

/-! # Byte offsets

Callers outside this library address a text by offsets into its UTF-8 bytes.  `byteOffset` and
`floorPos` convert between such offsets and positions, and the two line questions are asked here
once more in bytes.  An offset past the end stands for the end, one inside a character for the
start of that character. -/

namespace Graft.Text

/-- The number of bytes that encode a text. -/
def byteLength : Text → Nat
  | [] => 0
  | c :: t => c.utf8Size + byteLength t

/-- The offset of position `pos`. -/
def byteOffset (t : Text) (pos : Nat) : Nat := byteLength (t.take pos)

/-- The last position at or before byte `offset`. -/
def floorPos : Text → Nat → Nat
  | [], _ => 0
  | c :: t, offset => if offset < c.utf8Size then 0 else floorPos t (offset - c.utf8Size) + 1

/-- The start of the line that holds byte `offset`, as an offset. -/
def lineStartOffset (t : Text) (offset : Nat) : Nat :=
  byteOffset t (lineStart t (floorPos t offset))

/-- The offset just past the newline that ends the line holding byte `offset`, or the end. -/
def nextLineStartOffset (t : Text) (offset : Nat) : Nat :=
  byteOffset t (nextLineStart t (floorPos t offset))

@[simp] theorem byteLength_nil : byteLength [] = 0 := rfl

@[simp] theorem byteLength_cons (c : Char) (t : Text) :
    byteLength (c :: t) = c.utf8Size + byteLength t := rfl

@[simp] theorem byteLength_append (s t : Text) :
    byteLength (s ++ t) = byteLength s + byteLength t := by
  induction s with
  | nil => rw [List.nil_append, byteLength_nil, Nat.zero_add]
  | cons c s ih => rw [List.cons_append, byteLength_cons, byteLength_cons, ih, Nat.add_assoc]

theorem byteLength_pos {t : Text} (h : t ≠ []) : 0 < byteLength t := by
  obtain ⟨c, t, rfl⟩ := List.exists_cons_of_ne_nil h
  exact Nat.add_pos_left (Char.utf8Size_pos c) _

theorem byteOffset_append (s t : Text) : byteOffset (s ++ t) s.length = byteLength s := by
  rw [byteOffset, List.take_left]

theorem floorPos_le_length (t : Text) (offset : Nat) : floorPos t offset ≤ t.length := by
  induction t generalizing offset with
  | nil => exact Nat.le_refl 0
  | cons c t ih =>
    rw [floorPos]
    split
    · exact Nat.zero_le _
    · exact Nat.succ_le_succ (ih _)

/-- A position is recovered from its offset. -/
theorem floorPos_byteOffset {t : Text} {pos : Nat} (h : pos ≤ t.length) :
    floorPos t (byteOffset t pos) = pos := by
  induction t generalizing pos with
  | nil => simp at h; simp [h, floorPos]
  | cons c t ih =>
    cases pos with
    | zero => simp [byteOffset, floorPos, Char.utf8Size_pos]
    | succ pos =>
      have hc : ¬ c.utf8Size + byteLength (t.take pos) < c.utf8Size := by omega
      rw [byteOffset, List.take_succ_cons, byteLength_cons, floorPos, if_neg hc,
        Nat.add_sub_cancel_left]
      exact congrArg (· + 1) (ih (Nat.le_of_succ_le_succ h))

theorem floorPos_append (s t : Text) : floorPos (s ++ t) (byteLength s) = s.length := by
  rw [← byteOffset_append s t]
  exact floorPos_byteOffset (by simp)

end Graft.Text
