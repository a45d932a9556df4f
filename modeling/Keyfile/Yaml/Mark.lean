import Keyfile.Text.Utf8

/-!
# Marked text

Before a YAML text is read, each of its characters gets its position, and line breaks take one form:
a carriage return and line feed together, either alone, and U+0085 become a line feed; U+2028 and
U+2029 stay.
-/
namespace Keyfile.Yaml

/-- A position: characters before it, lines before it, characters before it in its line. -/
structure Mark where
  index : Nat
  line : Nat
  column : Nat
  deriving DecidableEq

namespace Mark

def zero : Mark := ⟨0, 0, 0⟩

def isStart (m : Mark) : Bool := m.line = 0 && m.column = 0

/-- The position behind a character that ends no line. -/
def next (m : Mark) : Mark := ⟨m.index + 1, m.line, m.column + 1⟩

/-- The start of the next line, behind a line break of `n` characters. -/
def newLine (m : Mark) (n : Nat) : Mark := ⟨m.index + n, m.line + 1, 0⟩

/-- A position in words, lines and columns counted from one. -/
def text (m : Mark) : String :=
  "line " ++ toString (m.line + 1) ++ " column " ++ toString (m.column + 1)

end Mark

/-- A character with its position. -/
structure Glyph where
  char : Char
  mark : Mark
  deriving DecidableEq

/-- What stands for the character behind the end of a text. -/
def noChar : Char := '\x00'

def isBreak (c : Char) : Bool := c = '\n' || c = '\u2028' || c = '\u2029'

/-- A line break or the end. -/
def isBreakOrEnd (c : Char) : Bool := isBreak c || c = noChar

def isBlank (c : Char) : Bool := c = ' ' || c = '\t'

/-- A blank, a line break or the end. -/
def isGap (c : Char) : Bool := isBlank c || isBreakOrEnd c

/-- A letter, a digit, `-` or `_`: what anchors and the names of directives consist of. -/
def isWord (c : Char) : Bool := c.isAlphanum || c = '-' || c = '_'

/-- The byte order mark, which takes a column but means nothing where a line begins with it. -/
def orderMark : Char := '\uFEFF'

/-- Characters with their positions, the first one at `m`, and the position of the end. -/
def marked (m : Mark) : List Char → List Glyph × Mark
  | [] => ([], m)
  | '\r' :: '\n' :: r =>
    let (gs, stop) := marked (m.newLine 2) r
    (⟨'\n', m⟩ :: gs, stop)
  | c :: r =>
    if c = '\r' ∨ c = '\n' ∨ c = '\u0085' then
      let (gs, stop) := marked (m.newLine 1) r
      (⟨'\n', m⟩ :: gs, stop)
    else if isBreak c then
      let (gs, stop) := marked (m.newLine 1) r
      (⟨c, m⟩ :: gs, stop)
    else
      let (gs, stop) := marked m.next r
      (⟨c, m⟩ :: gs, stop)

/-- Whether a character may stand in a YAML text at all. -/
def isPrintable (c : Char) : Bool :=
  let n := c.toNat
  n = 0x09 || n = 0x0A || n = 0x0D || (0x20 ≤ n && n ≤ 0x7E) || n = 0x85 ||
    (0xA0 ≤ n && n ≤ 0xD7FF) || (0xE000 ≤ n && n ≤ 0xFFFD) || 0x10000 ≤ n

/-- How many bytes of a text come before its first character that may not stand in it. -/
def forbiddenAt? (text : List Char) : Option Nat :=
  match text.dropWhile isPrintable with
  | [] => none
  | _ => some (Utf8.encode (text.takeWhile isPrintable)).length

/-- The number of bytes that are looked at together. -/
def blockSize : Nat := 16384

/-- How many characters come before the block with the first character that may not stand in a text,
if there is one. A block has as many whole characters as fit. So far there were `here` characters,
`front` of them in earlier blocks; those in this block take `used` bytes. -/
def readableFrom (front here used : Nat) : List Char → Option Nat
  | [] => none
  | c :: r =>
    let size := (Utf8.encodeChar c).length
    let (front, used) := if used + size ≤ blockSize then (front, used) else (here, 0)
    if isPrintable c then readableFrom front (here + 1) (used + size) r else some front

def readable? (text : List Char) : Option Nat := readableFrom 0 0 0 text

/-- The position in front of marked characters, when the text ends at `stop`. -/
def markAt (stop : Mark) : List Glyph → Mark
  | [] => stop
  | g :: _ => g.mark

/-- The character `n` places on. -/
def peek (gs : List Glyph) (n : Nat) : Char :=
  match gs[n]? with
  | some g => g.char
  | none => noChar

/-- Whether three hyphens or three points stand alone here, which separates documents. -/
def isSeparator (c : Char) (gs : List Glyph) : Bool :=
  peek gs 0 = c && peek gs 1 = c && peek gs 2 = c && isGap (peek gs 3)

/-- Whether documents are separated at the start of this line. -/
def atSeparator (gs : List Glyph) : Bool := isSeparator '-' gs || isSeparator '.' gs

/-- The characters that satisfy `p`, and what follows them. -/
def spanChars (p : Char → Bool) (gs : List Glyph) : List Char × List Glyph :=
  ((gs.takeWhile fun g => p g.char).map (·.char), gs.dropWhile fun g => p g.char)

def skipWhile (p : Char → Bool) (gs : List Glyph) : List Glyph := gs.dropWhile fun g => p g.char

/-- What follows a comment that starts here, if one does. -/
def skipComment (gs : List Glyph) : List Glyph :=
  if peek gs 0 = '#' then skipWhile (fun c => !isBreak c) gs else gs

end Keyfile.Yaml
