import Keyfile.Yaml.Fault
import Keyfile.Yaml.Token.Basic

/-!
# Scalars

Plain, quoted and block scalars as they are read from marked text, one character at a time. In plain
and quoted scalars a gap (blanks and line breaks between two words) is held back until the next word
comes, and is then written in its folded form.
-/
namespace Keyfile.Yaml.Scalar

/-- A scalar that has been read. -/
structure Reading where
  text : List Char
  /-- The position behind the scalar. -/
  stop : Mark
  rest : List Glyph
  /-- Whether reading went on into a line after the scalar. -/
  broke : Bool := false

/-- Blanks and line breaks between two words. Once there is a line break, blanks do not count. -/
structure Gap where
  blanks : List Char := []
  /-- The first line break; an escaped line break is one without characters. -/
  lead : Option (List Char) := none
  trail : List Char := []

namespace Gap

def isEmpty (gap : Gap) : Bool := gap.blanks.isEmpty && gap.lead.isNone

/-- A gap with one more blank or line break. -/
def add (gap : Gap) (c : Char) : Gap :=
  match gap.lead with
  | none => if isBlank c then { gap with blanks := gap.blanks ++ [c] } else { lead := some [c] }
  | some _ => if isBlank c then gap else { gap with trail := gap.trail ++ [c] }

/-- A gap in folded form: one line feed becomes a space, and of several the first is dropped. -/
def folded (gap : Gap) : List Char :=
  match gap.lead with
  | none => gap.blanks
  | some lead =>
    if lead = ['\n'] then
      if gap.trail.isEmpty then [' '] else gap.trail
    else lead ++ gap.trail

end Gap

/-! ## Plain scalars -/

/-- Where a plain scalar stands. -/
structure Setting where
  inFlow : Bool
  /-- The column that further lines of a scalar outside flow collections must reach. -/
  indent : Int
  start : Mark

def isFlowIndicator (c : Char) : Bool :=
  c = ',' || c = '[' || c = ']' || c = '\x7b' || c = '\x7d'

/-- Whether a plain scalar goes no further than the gap in front of `gs`. -/
def endsAfterGap (place : Setting) (c : Char) (gs : List Glyph) (column : Nat) : Bool :=
  (!place.inFlow && decide ((column : Int) < place.indent)) || (column = 0 && atSeparator gs) ||
    c = '#'

/-- Whether `c`, with `d` behind it, ends a word and the plain scalar. -/
def endsWord (inFlow : Bool) (c d : Char) : Bool :=
  (c = ':' && isGap d) || (inFlow && isFlowIndicator c)

/-- Reads a plain scalar on: `seen` holds its text so far from back to front, `last` is the position
behind it. -/
def plainFrom (place : Setting) (gap : Gap) (seen : List Char) (last : Mark) :
    List Glyph → Except Fault Reading
  | [] => .ok { text := seen.reverse, stop := last, rest := [], broke := gap.lead.isSome }
  | g :: r =>
    if isBlank g.char || isBreak g.char then
      if gap.lead.isSome && g.char = '\t' && decide ((g.mark.column : Int) < place.indent) then
        .error (.within .plainScalar place.start .tabIndentation g.mark)
      else plainFrom place (gap.add g.char) seen last r
    else if !gap.isEmpty && endsAfterGap place g.char (g :: r) g.mark.column then
      .ok { text := seen.reverse, stop := last, rest := g :: r, broke := gap.lead.isSome }
    else if place.inFlow && g.char = ':' && (isFlowIndicator (peek r 0) || peek r 0 = '?') then
      .error (.within .plainScalar place.start .unexpectedColon g.mark)
    else if endsWord place.inFlow g.char (peek r 0) then
      .ok { text := seen.reverse, stop := last, rest := g :: r, broke := gap.lead.isSome }
    else plainFrom place {} (g.char :: (gap.folded.reverse ++ seen)) g.mark.next r

/-- Reads the plain scalar at the front. -/
def plain (place : Setting) (gs : List Glyph) : Except Fault Reading :=
  plainFrom place {} [] place.start gs

/-! ## Quoted scalars -/

/-- What a character behind a backslash stands for. -/
def escaped? : Char → Option Char
  | '0' => some '\x00'
  | 'a' => some '\x07'
  | 'b' => some '\x08'
  | 't' => some '\t'
  | '\t' => some '\t'
  | 'n' => some '\n'
  | 'v' => some '\x0b'
  | 'f' => some '\x0c'
  | 'r' => some '\r'
  | 'e' => some '\x1b'
  | ' ' => some ' '
  | '\x22' => some '\x22'
  | '/' => some '/'
  | '\\' => some '\\'
  | 'N' => some '\u0085'
  | '_' => some '\u00a0'
  | 'L' => some '\u2028'
  | 'P' => some '\u2029'
  | _ => none

/-- How many hexadecimal digits follow a character behind a backslash. -/
def hexDigits? : Char → Option Nat
  | 'x' => some 2
  | 'u' => some 4
  | 'U' => some 8
  | _ => none

def hexValue? (c : Char) : Option Nat :=
  if c.isDigit then some (c.toNat - '0'.toNat)
  else if 'a' ≤ c ∧ c ≤ 'f' then some (c.toNat - 'a'.toNat + 10)
  else if 'A' ≤ c ∧ c ≤ 'F' then some (c.toNat - 'A'.toNat + 10)
  else none

/-- The character with a code point, if there is one. -/
def charOfCode? (n : Nat) : Option Char :=
  if n.isValidChar then some (Char.ofNat n) else none

/-- What comes next in a quoted scalar. -/
inductive Phase where
  | text
  /-- The character behind a backslash at `backslash`. -/
  | escape (backslash : Mark)
  /-- The remaining hexadecimal digits of an escape whose first digit is at `first`. -/
  | hex (left value : Nat) (first : Mark)
  /-- The character behind an apostrophe, which is a second one unless the scalar ends. -/
  | apostrophe

/-- Reads a quoted scalar on, in a text that ends at `stop`. -/
def quotedFrom (double : Bool) (start stop : Mark) (phase : Phase) (gap : Gap) (seen : List Char) :
    List Glyph → Except Fault Reading
  | [] =>
    match phase with
    | .text => .error (.within .quotedScalar start .endInScalar stop)
    | .escape backslash => .error (.within .quotedEscape start .unknownEscape backslash)
    | .hex _ _ first => .error (.within .quotedEscape start .missingHexDigits first)
    | .apostrophe => .ok { text := seen.reverse, stop := stop, rest := [] }
  | g :: r =>
    match phase with
    | .text =>
      if isBlank g.char || isBreak g.char then
        quotedFrom double start stop .text (gap.add g.char) seen r
      else if g.mark.column = 0 && atSeparator (g :: r) then
        .error (.within .quotedScalar start .separatorInScalar g.mark)
      else
        let seen := gap.folded.reverse ++ seen
        if double && g.char = '\x22' then
          .ok { text := seen.reverse, stop := g.mark.next, rest := r }
        else if double && g.char = '\\' then
          quotedFrom double start stop (.escape g.mark) {} seen r
        else if !double && g.char = '\x27' then
          quotedFrom double start stop .apostrophe {} seen r
        else quotedFrom double start stop .text {} (g.char :: seen) r
    | .escape backslash =>
      if isBreak g.char then quotedFrom double start stop .text { lead := some [] } seen r
      else
        match escaped? g.char, hexDigits? g.char with
        | some c, _ => quotedFrom double start stop .text {} (c :: seen) r
        | none, some n => quotedFrom double start stop (.hex n 0 g.mark.next) {} seen r
        | none, none => .error (.within .quotedEscape start .unknownEscape backslash)
    | .hex left value first =>
      match hexValue? g.char with
      | none => .error (.within .quotedEscape start .missingHexDigits first)
      | some d =>
        let value := value * 16 + d
        if left ≤ 1 then
          match charOfCode? value with
          | none => .error (.within .quotedEscape start .badCodePoint first)
          | some c => quotedFrom double start stop .text {} (c :: seen) r
        else quotedFrom double start stop (.hex (left - 1) value first) {} seen r
    | .apostrophe =>
      if g.char = '\x27' then quotedFrom double start stop .text {} ('\x27' :: seen) r
      else .ok { text := seen.reverse, stop := g.mark, rest := g :: r }

/-- Reads the quoted scalar that begins at `start`; `gs` is what follows the opening quote. -/
def quoted (double : Bool) (start stop : Mark) (gs : List Glyph) : Except Fault Reading :=
  quotedFrom double start stop .text {} [] gs

/-! ## Block scalars -/

/-- What becomes of the line breaks at the end of a block scalar. -/
inductive Chomping where
  | strip
  | clip
  | keep

/-- A block scalar as far as it has been read. -/
structure Block where
  folds : Bool
  chomping : Chomping
  /-- The column of its lines; zero while that is not known. -/
  width : Nat
  /-- The line break of the last line. -/
  lead : List Char := []
  /-- The line breaks of the empty lines after it. -/
  trail : List Char := []
  /-- Whether the last line began with a blank. -/
  blank : Bool := false
  seen : List Char := []

namespace Block

/-- The line breaks in front of a line that begins with a blank or not. -/
def breaks (b : Block) (blank : Bool) : List Char :=
  if b.folds && b.lead = ['\n'] && !b.blank && !blank then
    if b.trail.isEmpty then [' '] else b.trail
  else b.lead ++ b.trail

/-- A block scalar with a new line that begins with `c`. -/
def beginLine (b : Block) (c : Char) : Block :=
  { b with lead := [], trail := [], blank := isBlank c
           seen := c :: ((b.breaks (isBlank c)).reverse ++ b.seen) }

def ending (b : Block) : List Char :=
  match b.chomping with
  | .strip => []
  | .clip => b.lead
  | .keep => b.lead ++ b.trail

/-- What has been read when the scalar ends in front of `rest`. -/
def finish (b : Block) (stop : Mark) (rest : List Glyph) : Reading :=
  { text := b.seen.reverse ++ b.ending, stop := stop, rest := rest, broke := true }

/-- The column of the lines when the deepest blank line so far reached column `most`. -/
def settle (b : Block) (indent : Int) (most : Nat) : Nat :=
  if b.width = 0 then max (max most (indent + 1).toNat) 1 else b.width

end Block

/-- Reads a block scalar on: inside a line, or in the indentation of one, where blank lines so far
have reached column `most`. -/
def blockFrom (start stop : Mark) (indent : Int) (inLine : Bool) (most : Nat) (b : Block) :
    List Glyph → Except Fault Reading
  | [] => .ok (b.finish stop [])
  | g :: r =>
    if inLine then
      if isBreak g.char then
        blockFrom start stop indent false 0 { b with lead := [g.char], trail := [] } r
      else blockFrom start stop indent true 0 { b with seen := g.char :: b.seen } r
    else
      let indented := b.width = 0 || g.mark.column < b.width
      if indented && g.char = ' ' then
        blockFrom start stop indent false (max most (g.mark.column + 1)) b r
      else if indented && g.char = '\t' then
        .error (.within .blockScalar start .tabForSpace g.mark)
      else if isBreak g.char then
        blockFrom start stop indent false most { b with trail := b.trail ++ [g.char] } r
      else
        let width := b.settle indent most
        if g.mark.column = width then
          blockFrom start stop indent true 0 ({ b with width := width }.beginLine g.char) r
        else .ok (b.finish g.mark (g :: r))

def chomping? (c : Char) : Option Chomping :=
  if c = '+' then some .keep else if c = '-' then some .strip else none

/-- The indentation that a digit asks for, zero without a digit, and what follows. -/
def increment (start stop : Mark) (gs : List Glyph) : Except Fault (Nat × List Glyph) :=
  let c := peek gs 0
  if c = '0' then .error (.within .blockScalar start .zeroIndentation (markAt stop gs))
  else if c.isDigit then .ok (c.toNat - '0'.toNat, gs.drop 1)
  else .ok (0, gs)

/-- The two indicators behind the first character of a block scalar, in either order. -/
def header (start stop : Mark) (gs : List Glyph) :
    Except Fault (Chomping × Nat × List Glyph) :=
  match chomping? (peek gs 0) with
  | some chomping => do
    let (n, gs) ← increment start stop (gs.drop 1)
    .ok (chomping, n, gs)
  | none => do
    let (n, gs) ← increment start stop gs
    match n, chomping? (peek gs 0) with
    | _ + 1, some chomping => .ok (chomping, n, gs.drop 1)
    | _, _ => .ok (.clip, n, gs)

/-- Reads the block scalar that begins at `start`, inside a collection at column `indent`; `gs` is
what follows its first character. -/
def block (folds : Bool) (start stop : Mark) (indent : Int) (gs : List Glyph) :
    Except Fault Reading := do
  let (chomping, n, gs) ← header start stop gs
  let gs := skipComment (skipWhile isBlank gs)
  if !isBreakOrEnd (peek gs 0) then
    .error (.within .blockScalar start .missingCommentOrBreak (markAt stop gs))
  else
    let width := if n = 0 then 0 else (max indent 0).toNat + n
    blockFrom start stop indent false 0 { folds, chomping, width } (gs.drop 1)

end Keyfile.Yaml.Scalar
