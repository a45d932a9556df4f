import Keyfile.Text.Printable

/-!
# Quoted text

Text between quotation marks, with escapes for what cannot be read on its own: quotation marks,
backslashes, and every character that is not printable or combines with the one before it.
-/
namespace Keyfile.Text

/-- The digits of a number in base 16, in lower case. -/
def hexadecimal (n : Nat) : List Char := Nat.toDigits 16 n

def quotedChar (c : Char) : List Char :=
  if c = '\x00' then ['\\', '0']
  else if c = '\t' then ['\\', 't']
  else if c = '\r' then ['\\', 'r']
  else if c = '\n' then ['\\', 'n']
  else if c = '\x22' ∨ c = '\\' then ['\\', c]
  else if isPrintable c && !isCombining c then [c]
  else ['\\', 'u', '\x7b'] ++ hexadecimal c.toNat ++ ['\x7d']

def quoted (s : List Char) : String :=
  String.ofList (['\x22'] ++ s.flatMap quotedChar ++ ['\x22'])

end Keyfile.Text
