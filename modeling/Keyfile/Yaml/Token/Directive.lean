import Keyfile.Yaml.Token.Property

/-!
# Directives

The lines in front of a document that begin with a percent sign. There are two: the version of the
format, and the meaning of a tag handle.
-/
namespace Keyfile.Yaml.Directive

/-- The most digits that a part of a version may have. -/
def digitLimit : Nat := 9

/-- Reads a part of a version, a decimal number. -/
def number (start stop : Mark) (gs : List Glyph) : Except Fault (Nat × List Glyph) :=
  let (digits, rest) := spanChars Char.isDigit gs
  if digits.length > digitLimit then
    .error (.within .versionDirective start .longVersion (markAt stop (gs.drop digitLimit)))
  else if digits.isEmpty then
    .error (.within .versionDirective start .missingVersion (markAt stop rest))
  else .ok (digits.foldl (fun n c => 10 * n + (c.toNat - '0'.toNat)) 0, rest)

/-- Reads a version: two numbers with a point between them. -/
def version (start stop : Mark) (gs : List Glyph) : Except Fault (Token.Kind × List Glyph) := do
  let (major, gs) ← number start stop (skipWhile isBlank gs)
  if peek gs 0 ≠ '.' then
    .error (.within .versionDirective start .missingVersionDigit (markAt stop gs))
  else
    let (minor, gs) ← number start stop (gs.drop 1)
    .ok (.versionDirective major minor, gs)

/-- Reads a tag handle and the beginning of the tags that it stands for. -/
def tag (start stop : Mark) (gs : List Glyph) : Except Fault (Token.Kind × List Glyph) := do
  let (handle, gs) ← Property.handle .directive start stop (skipWhile isBlank gs)
  if !isBlank (peek gs 0) then
    .error (.within .tagDirective start .missingSpace (markAt stop gs))
  else
    let (uri, gs) ← Property.uri .directive true [] start stop (skipWhile isBlank gs)
    if !isGap (peek gs 0) then
      .error (.within .tagDirective start .missingSpaceOrBreak (markAt stop gs))
    else .ok (.tagDirective (Utf8.encode handle) uri, gs)

/-- Reads the name of a directive. -/
def name (start stop : Mark) (gs : List Glyph) : Except Fault (List Char × List Glyph) :=
  let (name, rest) := spanChars isWord gs
  if name.isEmpty then
    .error (.within .directive start .missingDirectiveName (markAt stop rest))
  else if !isGap (peek rest 0) then
    .error (.within .directive start .badDirectiveName (markAt stop rest))
  else .ok (name, rest)

/-- Reads the directive that begins at `start` with its line; `gs` is what follows the percent sign.
The answer has the position behind the directive itself. -/
def read (start stop : Mark) (gs : List Glyph) : Except Fault (Token.Kind × Mark × List Glyph) := do
  let (name, gs) ← name start stop gs
  let (kind, gs) ←
    if name = "YAML".toList then version start stop gs
    else if name = "TAG".toList then tag start stop gs
    else .error (.within .directive start .unknownDirective (markAt stop gs))
  let last := markAt stop gs
  let gs := skipComment (skipWhile isBlank gs)
  if !isBreakOrEnd (peek gs 0) then
    .error (.within .directive start .missingCommentOrBreak (markAt stop gs))
  else .ok (kind, last, gs.drop 1)

end Keyfile.Yaml.Directive
