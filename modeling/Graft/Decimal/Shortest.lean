import Graft.Decimal.Double
import Graft.Text.Basic

/-! # Shortest decimal text

A floating point number is written with the fewest digits that read back as the same number.  The
numbers that read back form an interval around it; the digits are those of a multiple of the
coarsest power of ten that has one in the interval, and of two such the nearer. -/

namespace Graft.Double

/-- The interval of what reads back as a number, in quarters of its last place: its lower end, the
number, and its upper end. -/
def interval (x : Double) : Nat × Nat × Nat :=
  let v := 4 * x.mant
  (v - if x.mant = Nat.pow 2 52 && minExp < x.exp then 1 else 2, v, v + 2)

/-- Whether the multiple `c` of `10 ^ e` reads back as `x`. -/
def readsBack (x : Double) (c : Nat) (e : Int) : Bool :=
  let (low, _, high) := interval x
  let (n, d) := scaled 10 c 1 (-e)
  let (n, d) := scaled 2 n d (x.exp - 2)
  if x.mant % 2 = 0 then low * d ≤ n && n ≤ high * d else low * d < n && n < high * d

/-- The multiple of `10 ^ e` that is nearest to `x` among those next to it that read back. -/
def onGrid? (x : Double) (e : Int) : Option Nat :=
  let (n, d) := scaled 2 x.mant 1 (-x.exp)
  let (n, d) := scaled 10 n d e
  let low := n / d
  match low ≠ 0 && x.readsBack low e, x.readsBack (low + 1) e with
  | true, true => some (divEven n d)
  | true, false => some low
  | false, true => some (low + 1)
  | false, false => none

/-- The digits of a number and the power of ten that they count, from the power `e` down; the first
argument bounds the powers. -/
def digitsFrom (x : Double) : Nat → Int → Nat × Int
  | 0, e => (0, e)
  | fuel + 1, e =>
    match x.onGrid? e with
    | some c => (c, e)
    | none => digitsFrom x fuel (e - 1)

/-- The shortest digits of a number that is not zero, and the power of ten that they count. -/
def digits (x : Double) : Nat × Int := x.digitsFrom 650 309

/-- The text of a number.  It is positional with a point from `10 ^ -5` up to `10 ^ 16`, and
otherwise has one digit before the point and an exponent with its sign. -/
def render (negative : Bool) (x : Double) : Text :=
  let sign : Text := if negative then ['-'] else []
  if x.isZero then sign ++ ['0', '.', '0']
  else
    let (c, e) := x.digits
    let ds := Nat.toDigits 10 c
    let point : Int := ds.length + e
    if 0 ≤ e && point ≤ 16 then sign ++ ds ++ List.replicate e.toNat '0' ++ ['.', '0']
    else if 0 < point && point ≤ 16 then
      sign ++ ds.take point.toNat ++ '.' :: ds.drop point.toNat
    else if -5 < point && point ≤ 0 then
      sign ++ '0' :: '.' :: List.replicate (-point).toNat '0' ++ ds
    else
      let mark : Text := if 0 < point then ['e', '+'] else ['e']
      let exponent := mark ++ (toString (point - 1)).toList
      match ds with
      | [d] => sign ++ d :: exponent
      | d :: ds => sign ++ d :: '.' :: ds ++ exponent
      | [] => sign

end Graft.Double
