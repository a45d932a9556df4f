/-!
# Binary floating point

The finite numbers of the 64-bit format as m · 2^e, with exact rounding: every operation is the
nearest such number to the exact result, a tie going to the even mantissa, and `none` when that
would be beyond the largest finite number.
-/
namespace Keyfile

/-- The number m · 2^e, or its negation. Zero keeps its sign. -/
structure Binary64 where
  negative : Bool
  mantissa : Nat
  exponent : Int
  deriving DecidableEq

namespace Binary64

def zero : Binary64 := ⟨false, 0, -1074⟩

/-- The integer nearest to `num / den`, a tie going to the even one. -/
def roundDiv (num den : Nat) : Nat :=
  let q := num / den
  let r := num % den
  if 2 * r > den ∨ (2 * r = den ∧ q % 2 = 1) then q + 1 else q

/-- The integer part of `num / (den · 2^e)`. -/
def floorScaled (num den : Nat) (e : Int) : Nat :=
  if 0 ≤ e then num / (den * Nat.pow 2 e.toNat) else num * Nat.pow 2 (-e).toNat / den

/-- The integer nearest to `num / (den · 2^e)`. -/
def roundScaled (num den : Nat) (e : Int) : Nat :=
  if 0 ≤ e then roundDiv num (den * Nat.pow 2 e.toNat)
  else roundDiv (num * Nat.pow 2 (-e).toNat) den

/-- The exponent of the numbers around `num / den`: the mantissa has 53 bits, or fewer at the
least exponent. -/
def exponentFor (num den : Nat) : Int :=
  let e : Int := (num.log2 : Int) - (den.log2 : Int) - 53
  let e := if floorScaled num den e < Nat.pow 2 53 then e else e + 1
  max e (-1074)

/-- The finite number nearest to `num / den`. -/
def ofRatio (num den : Nat) : Option Binary64 :=
  let e := exponentFor num den
  let m := roundScaled num den e
  let x : Binary64 := if m = Nat.pow 2 53 then ⟨false, Nat.pow 2 52, e + 1⟩ else ⟨false, m, e⟩
  if num = 0 then some zero else if x.exponent ≤ 971 then some x else none

/-- The numerator of the magnitude. -/
def num (x : Binary64) : Nat :=
  if 0 ≤ x.exponent then x.mantissa * Nat.pow 2 x.exponent.toNat else x.mantissa

/-- The denominator of the magnitude. -/
def den (x : Binary64) : Nat := if 0 ≤ x.exponent then 1 else Nat.pow 2 (-x.exponent).toNat

def ofNat (n : Nat) : Option Binary64 := ofRatio n 1

/-- The sum of two magnitudes. -/
def add (x y : Binary64) : Option Binary64 :=
  ofRatio (x.num * y.den + y.num * x.den) (x.den * y.den)

/-- Whether a magnitude is less than another. -/
def less (x y : Binary64) : Bool := x.num * y.den < y.num * x.den

/-- The product of two magnitudes. -/
def mul (x y : Binary64) : Option Binary64 := ofRatio (x.num * y.num) (x.den * y.den)

/-- The quotient of two magnitudes. -/
def div (x y : Binary64) : Option Binary64 := ofRatio (x.num * y.den) (x.den * y.num)

/-- The finite number nearest to 10^n. -/
def tenPower (n : Nat) : Option Binary64 := ofNat (Nat.pow 10 n)

def withSign (negative : Bool) (x : Binary64) : Binary64 := { x with negative }

/-- The finite number nearest to `digits · 10^exponent`. An exponent that takes the number far out
of range is settled without computing the power. -/
def ofDecimal (digits : Nat) (exponent : Int) : Option Binary64 :=
  let size : Int := (Nat.log2 digits : Int) * 3 / 10
  if digits = 0 then some zero
  else if exponent + size > 400 then none
  else if exponent + size < -800 then some zero
  else if 0 ≤ exponent then ofRatio (digits * Nat.pow 10 exponent.toNat) 1
  else ofRatio digits (Nat.pow 10 (-exponent).toNat)

end Binary64

end Keyfile
