import Keyfile.Json.Basic
import Keyfile.Json.Fault

/-!
# Numbers in JSON text

An integer that fits into 64 bits is read exactly. Any other number is a floating-point one: its
digits are gathered into an unsigned 64-bit integer as long as the next one fits, later digits only
count as places, and the integer is then scaled by one power of ten (by 10^308 at a time when the
exponent is larger). Each of these steps rounds, so the result need not be the nearest number.
-/
namespace Keyfile.Json

/-- A fault right before `rest`. -/
def Fault.here (cause : Cause) (rest : List Char) : Fault := ⟨cause, rest, 0⟩

/-- A fault at the first byte of `rest`, or at its end if there is none. -/
def Fault.next (cause : Cause) (rest : List Char) : Fault := ⟨cause, rest, min 1 rest.length⟩

def digit? (c : Char) : Option Nat :=
  if '0' ≤ c ∧ c ≤ '9' then some (c.toNat - '0'.toNat) else none

def startsWithDigit : List Char → Bool
  | c :: _ => (digit? c).isSome
  | [] => false

/-- The digits at the start of a text added to a number while it stays below 2^64, how many were
added, and the text behind them. -/
def gather (n : Nat) : List Char → Nat × Nat × List Char
  | [] => (n, 0, [])
  | c :: r =>
    match digit? c with
    | none => (n, 0, c :: r)
    | some d =>
      if n * 10 + d < Nat.pow 2 64 then
        let (m, k, rest) := gather (n * 10 + d) r
        (m, k + 1, rest)
      else (n, 0, c :: r)

/-- The number of digits at the start of a text, and the text behind them. -/
def skipDigits (s : List Char) : Nat × List Char :=
  ((s.takeWhile fun c => (digit? c).isSome).length, s.dropWhile fun c => (digit? c).isSome)

/-- `x · 10^exponent` for an exponent of any size; `steps` bounds how often 10^308 is taken off. -/
def scale (x : Binary64) : (steps : Nat) → (exponent : Int) → Option Binary64
  | 0, _ => some Binary64.zero
  | steps + 1, exponent =>
    if exponent.natAbs ≤ 308 then
      (Binary64.tenPower exponent.natAbs).bind fun p =>
        if 0 ≤ exponent then x.mul p else x.div p
    else if x.mantissa = 0 then some x
    else if 0 ≤ exponent then none
    else
      ((Binary64.tenPower 308).bind x.div).bind fun y => scale y steps (exponent + 308)

/-- The number `digits · 10^exponent` before `rest`. -/
def floating (negative : Bool) (digits : Nat) (exponent : Int) (rest : List Char) :
    Except Fault (Json × List Char) :=
  match (Binary64.ofNat digits).bind fun x => scale x 5 exponent with
  | some x => .ok (.double (x.withSign negative), rest)
  | none => .error (.here .numberOutOfRange rest)

/-- The digits of an exponent below 2^31, added to `n`: the exponent and the text behind it, or
`none` and the text behind the digit that is too much. -/
def gatherExponent (n : Nat) : List Char → Option Nat × List Char
  | [] => (some n, [])
  | c :: r =>
    match digit? c with
    | none => (some n, c :: r)
    | some d => if n * 10 + d < Nat.pow 2 31 then gatherExponent (n * 10 + d) r else (none, r)

/-- A number from behind the letter of its exponent on. -/
def exponentPart (negative : Bool) (digits : Nat) (exponent : Int) (s : List Char) :
    Except Fault (Json × List Char) :=
  let (down, s) : Bool × List Char :=
    match s with
    | '+' :: r => (false, r)
    | '-' :: r => (true, r)
    | _ => (false, s)
  match s with
  | [] => .error (.here .endInValue [])
  | c :: r =>
    match digit? c with
    | none => .error (.next .invalidNumber s)
    | some d =>
      match gatherExponent d r with
      | (some e, rest) =>
        floating negative digits (if down then exponent - e else exponent + e) rest
      | (none, rest) =>
        if digits ≠ 0 ∧ !down then .error (.here .numberOutOfRange rest)
        else .ok (.double (Binary64.zero.withSign negative), (skipDigits rest).2)

/-- A floating-point number from behind its digits on. -/
def tailPart (negative : Bool) (digits : Nat) (exponent : Int) (s : List Char) :
    Except Fault (Json × List Char) :=
  match s with
  | 'e' :: r => exponentPart negative digits exponent r
  | 'E' :: r => exponentPart negative digits exponent r
  | _ => floating negative digits exponent s

/-- A floating-point number from behind its point on. -/
def fractionPart (negative : Bool) (digits : Nat) (exponent : Int) (s : List Char) :
    Except Fault (Json × List Char) :=
  let (m, k, rest) := gather digits s
  if startsWithDigit rest then tailPart negative m (exponent - k) (skipDigits rest).2
  else if k = 0 then
    .error (.next (if rest.isEmpty then .endInValue else .invalidNumber) rest)
  else tailPart negative m (exponent - k) rest

/-- A number from behind the digits before its point on, when all of them were gathered. -/
def afterDigits (negative : Bool) (digits : Nat) (s : List Char) :
    Except Fault (Json × List Char) :=
  match s with
  | '.' :: r => fractionPart negative digits 0 r
  | 'e' :: r => exponentPart negative digits 0 r
  | 'E' :: r => exponentPart negative digits 0 r
  | _ =>
    if !negative then .ok (.integer digits, s)
    else if digits ≠ 0 ∧ digits ≤ Nat.pow 2 63 then .ok (.integer (-digits), s)
    else floating true digits 0 s

/-- A number from behind its sign on. -/
def number (negative : Bool) (s : List Char) : Except Fault (Json × List Char) :=
  match s with
  | [] => .error (.here .endInValue [])
  | '0' :: r =>
    if startsWithDigit r then .error (.next .invalidNumber r) else afterDigits negative 0 r
  | c :: _ =>
    if (digit? c).isSome then
      let (m, _, rest) := gather 0 s
      if startsWithDigit rest then
        let (k, rest) := skipDigits rest
        match rest with
        | '.' :: r => fractionPart negative m k r
        | _ => tailPart negative m k rest
      else afterDigits negative m rest
    else .error (.next .invalidNumber s)

end Keyfile.Json
