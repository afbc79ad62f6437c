import Graft.Text.Basic

/-! # UTF-8

Files are byte sequences.  `encode` writes a text, `decode?` reads a sequence that is well formed
and nothing else, `decodeLossy` puts U+FFFD in place of each maximal part that cannot be completed
to a character.  The three agree on how the first character of a sequence is read (`first`). -/

namespace Graft.Text

/-- Whether a byte can follow the first byte of a character. -/
def isTail (b : UInt8) : Bool := 0x80 ≤ b && b ≤ 0xBF

/-- How a sequence starts: with a character, or with bytes that begin none. -/
inductive Lead where
  | char (c : Char) (size : Nat)
  | broken (size : Nat)
  deriving DecidableEq, Repr

namespace Lead

/-- The bytes that the start takes. -/
def size : Lead → Nat
  | char _ n => n
  | broken n => n

/-- The range that the second byte must lie in after the first byte `a` of a longer character, and
the number of bytes that follow in all. -/
def shape? (a : UInt8) : Option (Nat × UInt8 × UInt8) :=
  if 0xC2 ≤ a && a ≤ 0xDF then some (1, 0x80, 0xBF)
  else if a == 0xE0 then some (2, 0xA0, 0xBF)
  else if a == 0xED then some (2, 0x80, 0x9F)
  else if 0xE1 ≤ a && a ≤ 0xEF then some (2, 0x80, 0xBF)
  else if a == 0xF0 then some (3, 0x90, 0xBF)
  else if 0xF1 ≤ a && a ≤ 0xF3 then some (3, 0x80, 0xBF)
  else if a == 0xF4 then some (3, 0x80, 0x8F)
  else none

/-- The payload of a first byte that `count` bytes follow. -/
def leadBits (count : Nat) (a : UInt8) : Nat := a.toNat % Nat.pow 2 (6 - count)

/-- The payload of a following byte, appended to `acc`. -/
def push (acc : Nat) (b : UInt8) : Nat := acc * 64 + b.toNat % 64

/-- The first character of `a :: rest`, or the length of the part to give up. -/
def ofBytes (a : UInt8) (rest : List UInt8) : Lead :=
  if a < 0x80 then char (Char.ofNat a.toNat) 1
  else
    match shape? a with
    | none => broken 1
    | some (count, low, high) =>
      match rest with
      | [] => broken 1
      | b :: rest =>
        if low ≤ b && b ≤ high then
          let tail := (rest.take (count - 1)).takeWhile isTail
          if tail.length = count - 1 then
            char (Char.ofNat (tail.foldl push (push (leadBits count a) b))) (count + 1)
          else broken (tail.length + 2)
        else broken 1

end Lead

/-- The bytes of a text. -/
def encode (t : Text) : List UInt8 := t.flatMap String.utf8EncodeChar

/-- Reads bytes with `onBroken` in place of what is ill formed; the first argument counts the bytes
of the current character that are still to be passed over. -/
def decodeWith (onBroken : Option Text) : Nat → List UInt8 → Option Text
  | _, [] => some []
  | n + 1, _ :: bs => decodeWith onBroken n bs
  | 0, b :: bs =>
    match Lead.ofBytes b bs with
    | .char c size => (decodeWith onBroken (size - 1) bs).map (c :: ·)
    | .broken size => do
      let mark ← onBroken
      return mark ++ (← decodeWith onBroken (size - 1) bs)

/-- The text that well formed bytes encode. -/
def decode? (bs : List UInt8) : Option Text := decodeWith none 0 bs

/-- The text of any bytes, U+FFFD standing for each ill formed part. -/
def decodeLossy (bs : List UInt8) : Text := (decodeWith (some ['\uFFFD']) 0 bs).getD []

end Graft.Text
