import Keyfile.Yaml.Token.Scalar

/-!
# Anchors and tags

What may stand in front of a node: a name for later reference, and a tag. A tag is a handle and a
suffix; the suffix is bytes, since its escapes may spell text that is not UTF-8, and it ends at a
zero byte.
-/
namespace Keyfile.Yaml.Property

/-- Whether a name may end in front of `c`. -/
def endsName (c : Char) : Bool :=
  isGap c || "?:,]\x7d%@\x60".toList.contains c

/-- Reads the name of an anchor or alias, which follows the character at `start`. -/
def name (context : Context) (start stop : Mark) (gs : List Glyph) :
    Except Fault (List Char × List Glyph) :=
  let (name, rest) := spanChars isWord gs
  if name.isEmpty || !endsName (peek rest 0) then
    .error (.within context start .missingName (markAt stop rest))
  else .ok (name, rest)

/-- Whether tags are read in a directive. -/
inductive Setting where
  | node
  | directive

def Setting.uriContext : Setting → Context
  | node => .tagUri
  | directive => .tagDirectiveUri

/-- Whether `c` may stand in a tag; brackets and commas only where nothing else could be meant. -/
def isUri (wide : Bool) (c : Char) : Bool :=
  isWord c || ";/?:@&=+$.%!~*\x27()".toList.contains c || (wide && ",[]".toList.contains c)

/-- How many bytes a UTF-8 sequence with this first byte has. -/
def octets? (first : Nat) : Option Nat :=
  if first < 0x80 then some 1
  else if first / 32 = 6 then some 2
  else if first / 16 = 14 then some 3
  else if first / 8 = 30 then some 4
  else none

/-- How many bytes are left of a sequence after the byte `octet`, when `left` were left before it;
zero means that it is the first one. -/
def octetsLeft (left octet : Nat) : Except Problem Nat :=
  if left = 0 then
    match octets? octet with
    | some n => .ok (n - 1)
    | none => .error .badUriLead
  else if octet / 64 = 2 then .ok (left - 1)
  else .error .badUriTrail

/-- Reads the characters and escapes of a tag: `seen` from back to front, with `left` more escapes
to complete a character. -/
def uriFrom (wide : Bool) (fault : Problem → Mark → Fault) (stop : Mark) (left : Nat)
    (seen : Bytes) : List Glyph → Except Fault (Bytes × List Glyph)
  | [] => if left = 0 then .ok (seen.reverse, []) else .error (fault .missingUriEscape stop)
  | g :: r =>
    if g.char = '%' then
      match r with
      | high :: low :: rest =>
        match Scalar.hexValue? high.char, Scalar.hexValue? low.char with
        | some a, some b =>
          match octetsLeft left (16 * a + b) with
          | .ok left => uriFrom wide fault stop left (UInt8.ofNat (16 * a + b) :: seen) rest
          | .error problem => .error (fault problem g.mark)
        | _, _ => .error (fault .missingUriEscape g.mark)
      | _ => .error (fault .missingUriEscape g.mark)
    else if left ≠ 0 then .error (fault .missingUriEscape g.mark)
    else if isUri wide g.char then
      uriFrom wide fault stop 0 ((Utf8.encodeChar g.char).reverse ++ seen) r
    else .ok (seen.reverse, g :: r)

/-- Reads a tag or a part of one that has `front` before it; together they may not be empty. -/
def uri (setting : Setting) (wide : Bool) (front : Bytes) (start stop : Mark) (gs : List Glyph) :
    Except Fault (Bytes × List Glyph) := do
  let fault := Fault.within setting.uriContext start
  let (body, rest) ← uriFrom wide fault stop 0 [] gs
  if front.isEmpty && body.isEmpty then .error (fault .missingUri (markAt stop rest))
  else .ok (front.drop 1 ++ body |>.takeWhile (· ≠ 0), rest)

/-- Reads a tag handle: an exclamation mark, a word and perhaps a second exclamation mark. -/
def handle (setting : Setting) (start stop : Mark) (gs : List Glyph) :
    Except Fault (List Char × List Glyph) :=
  if peek gs 0 ≠ '!' then
    let context := match setting with
      | .node => Context.tag
      | .directive => .tagDirectiveHandle
    .error (.within context start .missingBang (markAt stop gs))
  else
    let (word, rest) := spanChars isWord (gs.drop 1)
    if peek rest 0 = '!' then .ok ('!' :: (word ++ ['!']), rest.drop 1)
    else
      match setting, word with
      | .directive, _ :: _ =>
        .error (.within .tagDirectiveHandleEnd start .missingBang (markAt stop rest))
      | _, _ => .ok ('!' :: word, rest)

/-- The exclamation mark as a handle or suffix. -/
def bang : Bytes := Utf8.ofString "!"

/-- Reads the handle and the suffix of the tag at the front, which begins at `start`. -/
def tagParts (start stop : Mark) (gs : List Glyph) : Except Fault (Bytes × Bytes × List Glyph) := do
  if peek gs 1 = '<' then
    let (suffix, rest) ← uri .node true [] start stop (gs.drop 2)
    if peek rest 0 ≠ '>' then .error (.within .tag start .missingVerbatimEnd (markAt stop rest))
    else .ok ([], suffix, rest.drop 1)
  else
    let (front, rest) ← handle .node start stop gs
    if 2 ≤ front.length && front.getLast? = some '!' then
      let (suffix, rest) ← uri .node false [] start stop rest
      .ok (Utf8.encode front, suffix, rest)
    else
      let (suffix, rest) ← uri .node false (Utf8.encode front) start stop rest
      .ok (if suffix.isEmpty then ([], bang, rest) else (bang, suffix, rest))

/-- Reads the tag at the front. It must end in front of a gap, or of a comma in a flow
collection. -/
def tag (inFlow : Bool) (start stop : Mark) (gs : List Glyph) :
    Except Fault (Bytes × Bytes × List Glyph) := do
  let (handle, suffix, rest) ← tagParts start stop gs
  if isGap (peek rest 0) || (inFlow && peek rest 0 = ',') then .ok (handle, suffix, rest)
  else .error (.within .tag start .missingSpaceOrBreak (markAt stop rest))

end Keyfile.Yaml.Property
