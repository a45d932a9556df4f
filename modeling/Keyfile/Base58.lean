import Keyfile.Bytes

/-!
# Base 58

A byte string is written as one `1` for each leading zero byte, followed by the base-58 numeral of
the number the bytes denote. Since a numeral never starts with the digit zero, both parts can be
told apart again, and `decode?` reads every written form back.
-/
namespace Keyfile.Base58

/-- The digits, in order of value: no `0`, `O`, `I` or `l`. -/
def alphabet : List Char := "123456789ABCDEFGHJKLMNPQRSTUVWXYZabcdefghijkmnopqrstuvwxyz".toList

/-- The digit of a value below 58. -/
def digit (n : Nat) : Char := alphabet.getD n '1'

/-- The value of a digit. -/
def value? (c : Char) : Option Nat := alphabet.findIdx? (· = c)

/-- The digits of a number in a base, most significant first; none for zero. -/
def numeral (base n : Nat) : List Nat :=
  if _h : 2 ≤ base ∧ n ≠ 0 then numeral base (n / base) ++ [n % base] else []
termination_by n
decreasing_by exact Nat.div_lt_self (Nat.pos_of_ne_zero _h.2) _h.1

@[simp] theorem numeral_zero (base : Nat) : numeral base 0 = [] := by
  rw [numeral]; simp

/-- The number that digits denote in a base. -/
def ofNumeral (base : Nat) (ds : List Nat) : Nat := ds.foldl (fun n d => n * base + d) 0

/-- How many zero bytes a byte string starts with. -/
def leadingZeros (b : Bytes) : Nat := (b.takeWhile (· = 0)).length

def encodeChars (b : Bytes) : List Char :=
  List.replicate (leadingZeros b) '1' ++ (numeral 58 b.bigEndian).map digit

/-- The base-58 text of a byte string. -/
def encode (b : Bytes) : String := String.ofList (encodeChars b)

/-- The byte string a base-58 text stands for. -/
def decode? (s : List Char) : Option Bytes :=
  (s.mapM value?).map fun ds =>
    List.replicate (ds.takeWhile (· = 0)).length 0 ++
      (numeral 256 (ofNumeral 58 ds)).map UInt8.ofNat

end Keyfile.Base58
