import Keyfile.Text.Utf8

/-!
# Faults in JSON text

A fault is a cause and a place. While reading, the place is what was left of the text, together
with the number of bytes of it that had been looked at; the message gives it as a line and a column,
both counted in the bytes before it.
-/
namespace Keyfile.Json

inductive Cause where
  | endInValue
  | endInList
  | endInObject
  | endInString
  | expectedValue
  | expectedIdent
  | expectedColon
  | expectedListCommaOrEnd
  | expectedObjectCommaOrEnd
  | keyMustBeString
  | trailingComma
  | trailingCharacters
  | invalidNumber
  | numberOutOfRange
  | invalidEscape
  | loneSurrogate
  | unpairedSurrogate
  | controlCharacter
  | tooDeep
  deriving DecidableEq

def Cause.message : Cause → String
  | endInValue => "EOF while parsing a value"
  | endInList => "EOF while parsing a list"
  | endInObject => "EOF while parsing an object"
  | endInString => "EOF while parsing a string"
  | expectedValue => "expected value"
  | expectedIdent => "expected ident"
  | expectedColon => "expected `:`"
  | expectedListCommaOrEnd => "expected `,` or `]`"
  | expectedObjectCommaOrEnd => "expected `,` or `\x7d`"
  | keyMustBeString => "key must be a string"
  | trailingComma => "trailing comma"
  | trailingCharacters => "trailing characters"
  | invalidNumber => "invalid number"
  | numberOutOfRange => "number out of range"
  | invalidEscape => "invalid escape"
  | loneSurrogate => "lone leading surrogate in hex escape"
  | unpairedSurrogate => "unexpected end of hex escape"
  | controlCharacter => "control character (\\u0000-\\u001F) found while parsing a string"
  | tooDeep => "recursion limit exceeded"

/-- What went wrong, the text from there on, and how many bytes of it belong to the fault. -/
structure Fault where
  cause : Cause
  rest : List Char
  seen : Nat
  deriving DecidableEq

/-- The bytes of a text up to the place of a fault in it. -/
def Fault.before (f : Fault) (text : List Char) : Bytes :=
  let all := Utf8.encode text
  all.take (all.length - (Utf8.encode f.rest).length + f.seen)

/-- The line of the place after these bytes, counted from one, and the bytes before it in that
line. -/
def place (before : Bytes) : Nat × Nat :=
  (before.count 0x0A + 1, (before.reverse.takeWhile (· ≠ 0x0A)).length)

/-- The message for a fault in a text. -/
def Fault.message (f : Fault) (text : List Char) : String :=
  let (line, column) := place (f.before text)
  f.cause.message ++ " at line " ++ toString line ++ " column " ++ toString column

end Keyfile.Json
