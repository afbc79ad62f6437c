import Graft.Text.Utf8
import Mathlib.Data.List.TakeWhile

/-! # Texts and their bytes

Reading the bytes of a text gives the text back (`decode?_encode`).  The first byte of a character
tells how many bytes follow and what the next one may be (`leads_two` and its like), and each of
those holds six bits of the character. -/

namespace Graft.Text

namespace Lead

/-! ### Bytes -/

/-- A first byte with the payload `k` that `count` bytes follow, the next one between `low` and
`high`. -/
def Leads (a : UInt8) (count k low high : Nat) : Prop :=
  0x80 ≤ a ∧ shape? a = some (count, UInt8.ofNat low, UInt8.ofNat high) ∧ leadBits count a = k

instance (a : UInt8) (count k low high : Nat) : Decidable (Leads a count k low high) :=
  inferInstanceAs (Decidable (_ ∧ _))

theorem leads_two : ∀ k < 32, 2 ≤ k → Leads (UInt8.ofNat (k + 0xC0)) 1 k 0x80 0xBF := by decide

theorem leads_three : ∀ k < 16, Leads (UInt8.ofNat (k + 0xE0)) 2 k
    (if k = 0 then 0xA0 else 0x80) (if k = 13 then 0x9F else 0xBF) := by decide

theorem leads_four : ∀ k < 5, Leads (UInt8.ofNat (k + 0xF0)) 3 k
    (if k = 0 then 0x90 else 0x80) (if k = 4 then 0x8F else 0xBF) := by decide

/-- The byte with the last six bits of a number that may follow a first byte. -/
def tailByte (r : Nat) : UInt8 := UInt8.ofNat (r % 64 + 0x80)

theorem toNat_tailByte (r : Nat) : (tailByte r).toNat = r % 64 + 0x80 := by
  rw [tailByte, UInt8.toNat_ofNat']
  omega

theorem isTail_tailByte (r : Nat) : isTail (tailByte r) = true := by
  simp only [isTail, Bool.and_eq_true, decide_eq_true_eq, UInt8.le_iff_toNat_le, toNat_tailByte]
  exact ⟨Nat.le_add_left .., by change _ ≤ 0xBF; omega⟩

theorem push_tailByte (acc r : Nat) : push acc (tailByte r) = acc * 64 + r % 64 := by
  rw [push, toNat_tailByte]
  omega

theorem tailByte_mem {low high r : Nat} (hlow : low ≤ r % 64 + 0x80) (hhigh : r % 64 + 0x80 ≤ high)
    (h : high < 256) : UInt8.ofNat low ≤ tailByte r ∧ tailByte r ≤ UInt8.ofNat high := by
  rw [UInt8.le_iff_toNat_le, UInt8.le_iff_toNat_le, toNat_tailByte, UInt8.toNat_ofNat',
    UInt8.toNat_ofNat']
  omega

/-- A first byte with the bytes that it asks for is a character. -/
theorem Leads.ofBytes {a : UInt8} {count k low high r : Nat} (h : Leads a count k low high)
    (hlow : low ≤ r % 64 + 0x80) (hhigh : r % 64 + 0x80 ≤ high) (hbound : high < 256) {rs : List Nat}
    (hrs : rs.length = count - 1) (rest : List UInt8) :
    Lead.ofBytes a (tailByte r :: rs.map tailByte ++ rest) =
      char (Char.ofNat (rs.foldl (fun acc r => acc * 64 + r % 64) (k * 64 + r % 64)))
        (count + 1) := by
  obtain ⟨ha, hshape, hbits⟩ := h
  have htake : ((rs.map tailByte ++ rest).take (count - 1)).takeWhile isTail = rs.map tailByte := by
    rw [List.take_left' (by rw [List.length_map, hrs]), List.takeWhile_eq_self_iff]
    intro b hb
    obtain ⟨r, -, rfl⟩ := List.mem_map.mp hb
    exact isTail_tailByte r
  obtain ⟨hlow, hhigh⟩ := tailByte_mem hlow hhigh hbound
  simp only [Lead.ofBytes, if_neg (UInt8.not_lt.mpr ha), hshape, List.cons_append, htake,
    List.length_map, hrs, hlow, hhigh, decide_true, Bool.and_self, if_true, List.foldl_map,
    push_tailByte, hbits]

/-! ### Characters -/

variable {c : Char}

theorem utf8EncodeChar_one (h : c.toNat ≤ 0x7F) :
    String.utf8EncodeChar c = [UInt8.ofNat c.toNat] := by
  rw [String.utf8EncodeChar]
  exact if_pos h

theorem utf8EncodeChar_two (h : 0x7F < c.toNat) (h' : c.toNat ≤ 0x7FF) :
    String.utf8EncodeChar c =
      UInt8.ofNat (c.toNat / 64 % 32 + 0xC0) :: tailByte c.toNat :: [].map tailByte := by
  rw [String.utf8EncodeChar]
  exact (if_neg (Nat.not_le.mpr h)).trans (if_pos h')

theorem utf8EncodeChar_three (h : 0x7FF < c.toNat) (h' : c.toNat ≤ 0xFFFF) :
    String.utf8EncodeChar c =
      UInt8.ofNat (c.toNat / 4096 % 16 + 0xE0) :: tailByte (c.toNat / 64) ::
        [c.toNat].map tailByte := by
  rw [String.utf8EncodeChar]
  exact (if_neg (show ¬c.toNat ≤ 0x7F by omega)).trans
    ((if_neg (Nat.not_le.mpr h)).trans (if_pos h'))

theorem utf8EncodeChar_four (h : 0xFFFF < c.toNat) :
    String.utf8EncodeChar c =
      UInt8.ofNat (c.toNat / 262144 % 8 + 0xF0) :: tailByte (c.toNat / 4096) ::
        [c.toNat / 64, c.toNat].map tailByte := by
  rw [String.utf8EncodeChar]
  exact (if_neg (show ¬c.toNat ≤ 0x7F by omega)).trans
    ((if_neg (show ¬c.toNat ≤ 0x7FF by omega)).trans (if_neg (Nat.not_le.mpr h)))

/-- The bytes of a character are read as that character, whatever comes after them. -/
theorem ofBytes_utf8EncodeChar (c : Char) : ∃ a tail, String.utf8EncodeChar c = a :: tail ∧
    ∀ rest, ofBytes a (tail ++ rest) = char c (tail.length + 1) := by
  have hvalid : c.toNat < 0xD800 ∨ 0xDFFF < c.toNat ∧ c.toNat < 0x110000 := c.valid
  have hchar : Char.ofNat c.toNat = c := Char.ofNat_toNat c
  by_cases hone : c.toNat ≤ 0x7F
  · refine ⟨_, _, utf8EncodeChar_one hone, fun rest => ?_⟩
    have ha : (UInt8.ofNat c.toNat).toNat = c.toNat := by
      rw [UInt8.toNat_ofNat']
      omega
    have hlt : UInt8.ofNat c.toNat < 0x80 := by
      rw [UInt8.lt_iff_toNat_lt, ha]
      exact Nat.lt_succ_of_le hone
    rw [ofBytes, if_pos hlt, ha, hchar]
    rfl
  by_cases htwo : c.toNat ≤ 0x7FF
  · refine ⟨_, _, utf8EncodeChar_two (by omega) htwo, fun rest => ?_⟩
    have hleads := leads_two (c.toNat / 64 % 32) (by omega) (by omega)
    have hsum : c.toNat / 64 % 32 * 64 + c.toNat % 64 = c.toNat := by omega
    rw [hleads.ofBytes (by omega) (by omega) (by decide) rfl, List.foldl_nil, hsum, hchar]
    rfl
  by_cases hthree : c.toNat ≤ 0xFFFF
  · refine ⟨_, _, utf8EncodeChar_three (by omega) hthree, fun rest => ?_⟩
    have hleads := leads_three (c.toNat / 4096 % 16) (by omega)
    have hsum : (c.toNat / 4096 % 16 * 64 + c.toNat / 64 % 64) * 64 + c.toNat % 64 = c.toNat := by
      omega
    rw [hleads.ofBytes (by split <;> omega) (by split <;> omega) (by split <;> decide) rfl,
      List.foldl_cons, List.foldl_nil, hsum, hchar]
    rfl
  · refine ⟨_, _, utf8EncodeChar_four (by omega), fun rest => ?_⟩
    have hleads := leads_four (c.toNat / 262144 % 8) (by omega)
    have hsum : ((c.toNat / 262144 % 8 * 64 + c.toNat / 4096 % 64) * 64 + c.toNat / 64 % 64) * 64 +
        c.toNat % 64 = c.toNat := by
      omega
    rw [hleads.ofBytes (by split <;> omega) (by split <;> omega) (by split <;> decide) rfl,
      List.foldl_cons, List.foldl_cons, List.foldl_nil, hsum, hchar]
    rfl

end Lead

/-! ### Texts -/

theorem decodeWith_append (onBroken : Option Text) (tail rest : List UInt8) :
    decodeWith onBroken tail.length (tail ++ rest) = decodeWith onBroken 0 rest := by
  induction tail with
  | nil => rfl
  | cons b tail ih => rw [List.length_cons, List.cons_append, decodeWith, ih]

/-- The bytes of a text are read as that text. -/
theorem decode?_encode (t : Text) : decode? (encode t) = some t := by
  induction t with
  | nil => rfl
  | cons c t ih =>
      obtain ⟨a, tail, hbytes, hread⟩ := Lead.ofBytes_utf8EncodeChar c
      have hencode : encode (c :: t) = a :: (tail ++ encode t) := by
        unfold encode
        rw [List.flatMap_cons, hbytes, List.cons_append]
      rw [decode?, hencode, decodeWith, hread]
      simp only [Nat.add_sub_cancel, decodeWith_append]
      rw [← decode?, ih, Option.map_some]

end Graft.Text
