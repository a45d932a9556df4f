import Keyfile.Binary64.Shortest
import Keyfile.Json.Basic

/-!
# JSON text

Two layouts: compact text has no white space at all; indented text puts every item and member on a
line of its own, two spaces deeper than what holds it. Empty arrays and objects are two brackets in
both.
-/
namespace Keyfile.Json

/-- Powers of ten from 10^-5 to 10^15 lead without an exponent. -/
def numberLayout : Binary64.Layout := ⟨.toEven, fun lead => -5 ≤ lead && lead ≤ 15⟩

def hexDigit (n : Nat) : Char := "0123456789abcdef".toList.getD n '0'

/-- A character inside quotation marks. Quotes, backslashes and the control characters below U+0020
are escaped, with a short form where there is one; all else stands for itself. -/
def escapeChar (c : Char) : List Char :=
  if c = '\x22' then ['\\', '\x22']
  else if c = '\\' then ['\\', '\\']
  else if c = '\x08' then ['\\', 'b']
  else if c = '\x0c' then ['\\', 'f']
  else if c = '\n' then ['\\', 'n']
  else if c = '\r' then ['\\', 'r']
  else if c = '\t' then ['\\', 't']
  else if c.toNat < 0x20 then
    ['\\', 'u', '0', '0', hexDigit (c.toNat / 16), hexDigit (c.toNat % 16)]
  else [c]

/-- A string with its quotation marks. -/
def quote (s : String) : List Char := '\x22' :: s.toList.flatMap escapeChar ++ ['\x22']

def integerText (n : Int) : List Char := (toString n).toList

def scalarText : Json → List Char
  | .null => "null".toList
  | .bool b => (if b then "true" else "false").toList
  | .integer n => integerText n
  | .double x => (x.text numberLayout).toList
  | .string s => quote s
  | _ => []

mutual

def compactChars : Json → List Char
  | .array items => '[' :: compactItems items ++ [']']
  | .object members => '\x7b' :: compactMembers members ++ ['\x7d']
  | .null => scalarText .null
  | .bool b => scalarText (.bool b)
  | .integer n => scalarText (.integer n)
  | .double x => scalarText (.double x)
  | .string s => scalarText (.string s)

def compactItems : List Json → List Char
  | [] => []
  | [v] => compactChars v
  | v :: w :: r => compactChars v ++ ',' :: compactItems (w :: r)

def compactMembers : List (String × Json) → List Char
  | [] => []
  | [(n, v)] => quote n ++ ':' :: compactChars v
  | (n, v) :: m :: r => quote n ++ ':' :: compactChars v ++ ',' :: compactMembers (m :: r)

end

/-- A new line at this depth. -/
def newLine (depth : Nat) : List Char := '\n' :: List.replicate (2 * depth) ' '

mutual

def indentedChars (depth : Nat) : Json → List Char
  | .array [] => ['[', ']']
  | .array (v :: r) =>
    '[' :: newLine (depth + 1) ++ indentedItems (depth + 1) (v :: r) ++ newLine depth ++ [']']
  | .object [] => ['\x7b', '\x7d']
  | .object (m :: r) =>
    '\x7b' :: newLine (depth + 1) ++ indentedMembers (depth + 1) (m :: r) ++ newLine depth ++
      ['\x7d']
  | .null => scalarText .null
  | .bool b => scalarText (.bool b)
  | .integer n => scalarText (.integer n)
  | .double x => scalarText (.double x)
  | .string s => scalarText (.string s)

def indentedItems (depth : Nat) : List Json → List Char
  | [] => []
  | [v] => indentedChars depth v
  | v :: w :: r => indentedChars depth v ++ ',' :: newLine depth ++ indentedItems depth (w :: r)

def indentedMembers (depth : Nat) : List (String × Json) → List Char
  | [] => []
  | [(n, v)] => quote n ++ ':' :: ' ' :: indentedChars depth v
  | (n, v) :: m :: r =>
    quote n ++ ':' :: ' ' :: indentedChars depth v ++ ',' :: newLine depth ++
      indentedMembers depth (m :: r)

end

def compact (v : Json) : String := String.ofList (compactChars v)

def indented (v : Json) : String := String.ofList (indentedChars 0 v)

end Keyfile.Json
