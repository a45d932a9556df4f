import Keyfile.Binary64.Basic

/-!
# Shortest decimal forms

The text of a number has the fewest significant digits that still read back as the number; of the
candidates with that many digits the nearest is taken. `Layout` says which one of two equally near
ones that is, and how the digits are set out.
-/
namespace Keyfile.Binary64

/-- Four times the ends of the interval of reals that round to m · 2^e, in units of 2^e. The gap
below a power of two is half as wide, except at the least exponent. -/
def intervalEnds (x : Binary64) : Nat × Nat :=
  let below := if x.mantissa = Nat.pow 2 52 ∧ x.exponent ≠ -1074 then 1 else 2
  (4 * x.mantissa - below, 4 * x.mantissa + 2)

/-- Whether `digits · 10^k` reads back as the number. The ends belong to the interval exactly when
the mantissa is even. -/
def readsBack (x : Binary64) (digits : Nat) (k : Int) : Bool :=
  let (lo, hi) := x.intervalEnds
  let scale (n : Nat) (e : Int) (base : Nat) : Nat := n * Nat.pow base e.toNat
  let value := scale (scale (4 * digits) k 10) (-x.exponent) 2
  let lo := scale (scale lo (-k) 10) x.exponent 2
  let hi := scale (scale hi (-k) 10) x.exponent 2
  if x.mantissa % 2 = 0 then lo ≤ value && value ≤ hi else lo < value && value < hi

/-- The magnitude in units of 10^k, as a fraction. -/
def inUnits (x : Binary64) (k : Int) : Nat × Nat :=
  (x.num * Nat.pow 10 (-k).toNat, x.den * Nat.pow 10 k.toNat)

/-- The number of digits before the point of `num / den`, negative when zeros follow the point. -/
def decimalSize (num den : Nat) : Int :=
  let guess : Int := ((num.log2 : Int) - (den.log2 : Int)) * 30103 / 100000
  let reaches (k : Int) : Bool := den * Nat.pow 10 k.toNat ≤ num * Nat.pow 10 (-k).toNat
  if reaches (guess + 2) then guess + 3
  else if reaches (guess + 1) then guess + 2
  else if reaches guess then guess + 1
  else if reaches (guess - 1) then guess
  else guess - 1

/-- Which one of two equally near candidates is taken. -/
inductive Tie where
  | toEven
  | awayFromZero
  deriving DecidableEq

/-- The better of the two multiples of 10^k next to the number, if one reads back. -/
def onGrid (tie : Tie) (x : Binary64) (k : Int) : Option Nat :=
  let (n, d) := x.inUnits k
  let lower := n / d
  let r := n % d
  let upper := if r = 0 then lower else lower + 1
  let tieUp := tie = .awayFromZero ∨ lower % 2 = 1
  let nearest := if 2 * r > d ∨ (2 * r = d ∧ tieUp) then upper else lower
  if x.readsBack nearest k then some nearest
  else if x.readsBack lower k then some lower
  else if x.readsBack upper k then some upper
  else none

/-- Digits without trailing zeros, and the power of ten of the last one. -/
def dropZeros : (fuel digits : Nat) → (k : Int) → Nat × Int
  | 0, digits, k => (digits, k)
  | fuel + 1, digits, k =>
    if digits % 10 = 0 ∧ digits ≠ 0 then dropZeros fuel (digits / 10) (k + 1) else (digits, k)

/-- The first grid with a candidate, from the coarsest; `left` grids remain to be tried. -/
def search (tie : Tie) (x : Binary64) : (left : Nat) → (k : Int) → Nat × Int
  | 0, k => (x.inUnits k |> fun (n, d) => roundDiv n d, k)
  | left + 1, k =>
    match x.onGrid tie k with
    | some digits => dropZeros 20 digits k
    | none => search tie x left (k - 1)

/-- The shortest digits of a number and the power of ten of the last one. -/
def shortest (tie : Tie) (x : Binary64) : Nat × Int :=
  if x.mantissa = 0 then (0, 0) else x.search tie 17 (decimalSize x.num x.den - 1)

/-- How digits are chosen and set out. -/
structure Layout where
  tie : Tie
  /-- The powers of ten of the leading digit that are written without an exponent. -/
  positional : Int → Bool

/-- Digits with a point after the first `size` of them; a size of zero or less puts zeros in front.
Both sides of the point have at least one digit. -/
def pointed (digits : List Char) (size : Int) : List Char :=
  if size ≤ 0 then
    "0.".toList ++ List.replicate (-size).toNat '0' ++ digits
  else
    let whole := digits.take size.toNat
    let fraction := digits.drop size.toNat
    whole ++ List.replicate (size.toNat - whole.length) '0' ++ ['.'] ++
      (if fraction.isEmpty then ['0'] else fraction)

/-- Digits with a point after the first and the exponent of ten behind. -/
def scientific (digits : List Char) (exponent : Int) : List Char :=
  digits.take 1 ++ (if digits.length ≤ 1 then [] else '.' :: digits.drop 1) ++
    (if exponent < 0 then "e-" else "e+").toList ++ (toString exponent.natAbs).toList

/-- The decimal text of a number. -/
def text (layout : Layout) (x : Binary64) : String :=
  let (n, k) := x.shortest layout.tie
  let digits := (toString n).toList
  let lead : Int := k + digits.length - 1
  String.ofList <|
    (if x.negative then ['-'] else []) ++
      (if layout.positional lead then pointed digits (lead + 1) else scientific digits lead)

end Keyfile.Binary64
