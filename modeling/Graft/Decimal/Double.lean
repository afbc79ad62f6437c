/-! # Binary floating point numbers

The finite numbers with 53 significant bits, zero and the subnormal ones among them, without a sign.
Every operation computes exactly and then rounds once, to the nearest number and of two nearest to
the even one. -/

namespace Graft

/-- The number `mant * 2 ^ exp`. -/
structure Double where
  mant : Nat
  exp : Int
  deriving DecidableEq, Repr

namespace Double

/-- The least exponent. -/
def minExp : Int := -1074

/-- The greatest exponent. -/
def maxExp : Int := 971

def zero : Double := ⟨0, minExp⟩

/-- The two parts of the fraction `num / (den * base ^ e)`. -/
def scaled (base num den : Nat) (e : Int) : Nat × Nat :=
  if 0 ≤ e then (num, den * base.pow e.toNat) else (num * base.pow (-e).toNat, den)

/-- The quotient rounded to the nearest whole number, of two nearest to the even one. -/
def divEven (num den : Nat) : Nat :=
  let q := num / den
  let r := num % den
  if den < 2 * r || (2 * r = den && q % 2 = 1) then q + 1 else q

/-- The exponent at which the quotient has 53 bits, or the least one. -/
def exponentOf (num den : Nat) : Int :=
  let e : Int := (num.log2 : Int) - den.log2 - 52
  let (n, d) := scaled 2 num den e
  max minExp (if n / d < Nat.pow 2 52 then e - 1 else e)

/-- The number nearest to `num / den`, unless that is too large. -/
def round? (num den : Nat) : Option Double :=
  if num = 0 then some zero
  else
    let e := exponentOf num den
    let (n, d) := scaled 2 num den e
    let m := divEven n d
    let x : Double := if m = Nat.pow 2 53 then ⟨Nat.pow 2 52, e + 1⟩ else ⟨m, e⟩
    if maxExp < x.exp then none else some x

def isZero (x : Double) : Bool := x.mant = 0

/-- The nearest number to a whole number, the largest ones aside. -/
def ofNat (n : Nat) : Double := (round? n 1).getD zero

def mul? (x y : Double) : Option Double :=
  let (n, d) := scaled 2 (x.mant * y.mant) 1 (-(x.exp + y.exp))
  round? n d

def div? (x y : Double) : Option Double :=
  let (n, d) := scaled 2 x.mant y.mant (y.exp - x.exp)
  round? n d

/-- The number nearest to a power of ten up to `10 ^ 308`. -/
def pow10 (n : Nat) : Double := ofNat (Nat.pow 10 n)

/-- The number that `significand * 10 ^ exponent` is read as: the significand is rounded and then
multiplied or divided by a rounded power of ten; `none` if it is too large.  Where the power of ten
is out of range, several divisions take its place, whose number the first argument bounds. -/
def ofParts? : Nat → Double → Int → Option Double
  | 0, _, _ => some zero
  | fuel + 1, x, e =>
    if e.natAbs ≤ 308 then
      if 0 ≤ e then x.mul? (pow10 e.toNat) else x.div? (pow10 (-e).toNat)
    else if x.isZero then some zero
    else if 0 ≤ e then none
    else do ofParts? fuel (← x.div? (pow10 308)) (e + 308)

end Double

end Graft
