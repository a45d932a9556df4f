import Keyfile.Binary64.Shortest
import Keyfile.Text.Quoted
import Keyfile.Yaml.Event

/-!
# What plain scalars mean

A plain scalar may stand for null, a truth value or a number; any other is text. A tag can decide
what a scalar is instead.
-/
namespace Keyfile.Yaml

inductive Value where
  | null
  | bool (b : Bool)
  | integer (n : Int)
  | float (x : Binary64)
  | infinity (negative : Bool)
  | notANumber
  | text (s : List Char)

namespace Value

def isNull (s : List Char) : Bool :=
  ["null", "Null", "NULL", "~"].any fun w => w.toList = s

def bool? (s : List Char) : Option Bool :=
  if ["true", "True", "TRUE"].any fun w => w.toList = s then some true
  else if ["false", "False", "FALSE"].any fun w => w.toList = s then some false
  else none

/-- A number without its sign, and whether the sign is a minus. -/
def unsigned : List Char → Bool × List Char
  | '-' :: r => (true, r)
  | '+' :: r => (false, r)
  | s => (false, s)

/-- The number that digits spell in base `base`. -/
def digits? (base : Nat) (s : List Char) : Option Nat :=
  if s.isEmpty then none
  else
    s.foldl (fun n? c => do
      let n ← n?
      let d ← Scalar.hexValue? c
      if d < base then some (n * base + d) else none) (some 0)

/-- Whether digits begin with a zero although there are several, which makes them text. -/
def hasIdleZero (s : List Char) : Bool :=
  let (_, body) := unsigned s
  body.length > 1 && body.head? = some '0' && body.all Char.isDigit

def natural? (body : List Char) : Option Nat :=
  match body with
  | '0' :: 'x' :: r => digits? 16 r
  | '0' :: 'o' :: r => digits? 8 r
  | '0' :: 'b' :: r => digits? 2 r
  | _ => digits? 10 body

/-- An integer of at most 128 bits, in base ten or marked as in base 16, 8 or 2. -/
def integer? (s : List Char) : Option Int :=
  let (negative, body) := unsigned s
  if hasIdleZero s then none
  else
    match negative, natural? body with
    | _, none => none
    | true, some n => if n ≤ Nat.pow 2 127 then some (-n) else none
    | false, some n => if n < Nat.pow 2 128 then some n else none

/-- The exponent behind a decimal fraction: nothing, or `e` and an integer in base ten. -/
def exponent? : List Char → Option Int
  | [] => some 0
  | c :: r =>
    if c = 'e' ∨ c = 'E' then
      let (negative, body) := unsigned r
      (digits? 10 body).map fun n => if negative then -(n : Int) else n
    else none

/-- A decimal fraction with an exponent, if it is in range. -/
def decimal? (negative : Bool) (s : List Char) : Option Binary64 := do
  let whole := s.takeWhile Char.isDigit
  let rest := s.drop whole.length
  let (fraction, rest) := match rest with
    | '.' :: r => (r.takeWhile Char.isDigit, r.dropWhile Char.isDigit)
    | _ => ([], rest)
  let digits ← digits? 10 (whole ++ fraction)
  let exponent ← exponent? rest
  let x ← Binary64.ofDecimal digits (exponent - fraction.length)
  return x.withSign negative

/-- A number in the sense of floating point, infinities and the value that is no number included. -/
def float? (s : List Char) : Option Value :=
  let (negative, body) := unsigned s
  if [".inf", ".Inf", ".INF"].any fun w => w.toList = body then some (.infinity negative)
  else if [".nan", ".NaN", ".NAN"].any fun w => w.toList = s then some .notANumber
  else (decimal? negative body).map .float

/-- What a plain scalar stands for when nothing else decides it. -/
def ofPlain (s : List Char) : Value :=
  if s.isEmpty || isNull s then .null
  else
    match bool? s, integer? s, if hasIdleZero s then none else float? s with
    | some b, _, _ => .bool b
    | none, some n, _ => .integer n
    | none, none, some x => x
    | none, none, none => .text s

/-- All numbers are written without an exponent, and a tie goes away from zero. -/
def layout : Binary64.Layout := ⟨.awayFromZero, fun _ => true⟩

/-- A value and its kind in words. -/
def describe : Value → String
  | null => "unit value"
  | bool b => "boolean \x60" ++ toString b ++ "\x60"
  | integer n =>
    "integer \x60" ++ toString n ++ "\x60" ++
      (if n < -(Nat.pow 2 63 : Nat) then " as i128"
       else if (Nat.pow 2 64 : Nat) ≤ n then " as u128"
       else "")
  | float x => "floating point \x60" ++ x.text layout ++ "\x60"
  | infinity negative => "floating point \x60" ++ (if negative then "-inf" else "inf") ++ "\x60"
  | notANumber => "floating point \x60NaN\x60"
  | text s => "string " ++ Text.quoted s

end Value

end Keyfile.Yaml
