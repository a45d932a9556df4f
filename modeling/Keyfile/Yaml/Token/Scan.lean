import Keyfile.Yaml.Token.Directive

/-!
# From text to tokens

Reading proceeds token by token. A scalar, an alias or a flow collection may turn out to be a key
only when a colon follows it on its line, so the place of such a possible key is kept, and the key's
token is inserted there later. Outside flow collections the columns of the open block collections
are kept as well; a token further left closes them.
-/
namespace Keyfile.Yaml

/-- What may turn out to be a key: the number of its first token and its position. It is required to
be one when it begins at the column of the innermost block collection. -/
structure PossibleKey where
  required : Bool
  token : Nat
  mark : Mark

/-- How far behind its beginning the colon of a key may stand. -/
def keySpan : Nat := 1024

/-- Whether a key that began here can no longer get its colon. -/
def PossibleKey.isStale (k : PossibleKey) (here : Mark) : Bool :=
  k.mark.line < here.line || k.mark.index + keySpan < here.index

/-- A text as far as it has been read. -/
structure Scan where
  rest : List Glyph
  stop : Mark
  /-- The possible key of the innermost flow collection, or of the block collections outside. -/
  key : Option PossibleKey := none
  /-- The possible keys of the collections around it, from the inside to the outside. -/
  outer : List (Option PossibleKey) := []
  /-- The columns of the open block collections, from the inside to the outside. -/
  indents : List Nat := []
  keyAllowed : Bool := true
  tokens : Array Token := #[]
  ended : Bool := false

namespace Scan

def here (s : Scan) : Mark := markAt s.stop s.rest

def inFlow (s : Scan) : Bool := !s.outer.isEmpty

/-- The column of the innermost block collection. -/
def indent (s : Scan) : Int :=
  match s.indents with
  | [] => -1
  | n :: _ => n

def push (s : Scan) (kind : Token.Kind) (start stop : Mark) : Scan :=
  { s with tokens := s.tokens.push ⟨kind, start, stop⟩ }

/-- Reads an indicator of `n` characters. -/
def indicator (s : Scan) (kind : Token.Kind) (n : Nat) : Scan :=
  let s' := { s with rest := s.rest.drop n }
  s'.push kind s.here s'.here

/-- Closes the block collections that are further right than `column`. -/
def unroll (s : Scan) (column : Int) : Scan :=
  if s.inFlow then s
  else
    let closed := s.indents.takeWhile fun (n : Nat) => decide (column < n)
    let blockEnd : Token := ⟨.blockEnd, s.here, s.here⟩
    { s with
      indents := s.indents.drop closed.length
      tokens := s.tokens ++ List.replicate closed.length blockEnd }

/-- Opens a block collection at the token with this number, unless one is open at its column. -/
def roll (s : Scan) (kind : Token.Kind) (number : Nat) (mark : Mark) : Scan :=
  if s.inFlow || decide ((mark.column : Int) ≤ s.indent) then s
  else
    { s with
      indents := mark.column :: s.indents
      tokens := s.tokens.insertIdxIfInBounds number ⟨kind, mark, mark⟩ }

/-- Gives up the possible key, which is a fault when it is required. -/
def dropKey (s : Scan) : Except Fault Scan :=
  match s.key with
  | some k =>
    if k.required then .error (.within .simpleKey k.mark .missingColon s.here)
    else .ok { s with key := none }
  | none => .ok s

/-- Remembers that a key may begin here, where one is allowed. -/
def saveKey (s : Scan) : Except Fault Scan :=
  if s.keyAllowed then do
    let required := !s.inFlow && decide (s.indent = s.here.column)
    let s ← s.dropKey
    .ok { s with key := some ⟨required, s.tokens.size, s.here⟩ }
  else .ok s

def keys (s : Scan) : List PossibleKey := (s.key :: s.outer).filterMap id

/-- Gives up all possible keys that are stale, which is a fault when one of them is required. -/
def dropStale (s : Scan) : Except Fault Scan :=
  match s.keys.find? fun k => k.required && k.isStale s.here with
  | some k => .error (.within .simpleKey k.mark .missingColon s.here)
  | none =>
    let fresh := Option.filter fun (k : PossibleKey) => !k.isStale s.here
    .ok { s with key := fresh s.key, outer := s.outer.map fresh }

/-- Skips what stands between tokens, and tells whether a key may begin behind it. -/
def skipFrom (inFlow inComment keyAllowed : Bool) : List Glyph → List Glyph × Bool
  | [] => ([], keyAllowed)
  | g :: r =>
    if isBreak g.char then skipFrom inFlow false (keyAllowed || !inFlow) r
    else if inComment || (g.char = orderMark && g.mark.column = 0) || g.char = ' ' ||
        (g.char = '\t' && (inFlow || !keyAllowed)) then
      skipFrom inFlow inComment keyAllowed r
    else if g.char = '#' then skipFrom inFlow true keyAllowed r
    else (g :: r, keyAllowed)

def skipToToken (s : Scan) : Scan :=
  let (rest, keyAllowed) := skipFrom s.inFlow false s.keyAllowed s.rest
  { s with rest, keyAllowed }

/-! ## Tokens -/

/-- The end of the text, which counts as the start of a line. -/
def fetchEnd (s : Scan) : Except Fault Scan := do
  let stop := if s.stop.column = 0 then s.stop else ⟨s.stop.index, s.stop.line + 1, 0⟩
  let s ← ({ s with stop }.unroll (-1)).dropKey
  .ok { s.push .streamEnd stop stop with keyAllowed := false, ended := true }

def fetchDirective (s : Scan) : Except Fault Scan := do
  let s ← (s.unroll (-1)).dropKey
  let (kind, stop, rest) ← Directive.read s.here s.stop (s.rest.drop 1)
  .ok { s.push kind s.here stop with rest, keyAllowed := false }

def fetchSeparator (s : Scan) (kind : Token.Kind) : Except Fault Scan := do
  let s ← (s.unroll (-1)).dropKey
  .ok ({ s with keyAllowed := false }.indicator kind 3)

def fetchFlowStart (s : Scan) (kind : Token.Kind) : Except Fault Scan := do
  let s ← s.saveKey
  .ok ({ s with keyAllowed := true, key := none, outer := s.key :: s.outer }.indicator kind 1)

def fetchFlowEnd (s : Scan) (kind : Token.Kind) : Except Fault Scan := do
  let s ← s.dropKey
  let (key, outer) := match s.outer with
    | [] => (s.key, [])
    | key :: outer => (key, outer)
  .ok ({ s with keyAllowed := false, key, outer }.indicator kind 1)

def fetchFlowEntry (s : Scan) : Except Fault Scan := do
  let s ← s.dropKey
  .ok ({ s with keyAllowed := true }.indicator .flowEntry 1)

/-- Opens a block collection for an indicator that stands here, where that is allowed. -/
def rollHere (s : Scan) (kind : Token.Kind) (problem : Problem) : Except Fault Scan :=
  if s.inFlow then .ok s
  else if s.keyAllowed then .ok (s.roll kind s.tokens.size s.here)
  else .error { problem, mark := s.here }

def fetchBlockEntry (s : Scan) : Except Fault Scan := do
  let s ← s.rollHere .blockSequenceStart .sequenceNotAllowed
  let s ← s.dropKey
  .ok ({ s with keyAllowed := true }.indicator .blockEntry 1)

def fetchKey (s : Scan) : Except Fault Scan := do
  let s ← s.rollHere .blockMappingStart .keyNotAllowed
  let s ← s.dropKey
  .ok ({ s with keyAllowed := !s.inFlow }.indicator .key 1)

/-- A colon: it makes the possible key a key, or else is the value of an empty one. -/
def fetchValue (s : Scan) : Except Fault Scan :=
  match s.key with
  | some k =>
    let tokens := s.tokens.insertIdxIfInBounds k.token ⟨.key, k.mark, k.mark⟩
    let s := { s with tokens, key := none, keyAllowed := false }
    .ok ((s.roll .blockMappingStart k.token k.mark).indicator .value 1)
  | none => do
    let s ← s.rollHere .blockMappingStart .valueNotAllowed
    .ok ({ s with keyAllowed := !s.inFlow }.indicator .value 1)

def fetchAnchor (s : Scan) (context : Context) (kind : List Char → Token.Kind) :
    Except Fault Scan := do
  let s ← s.saveKey
  let (name, rest) ← Property.name context s.here s.stop (s.rest.drop 1)
  .ok { s.push (kind name) s.here (markAt s.stop rest) with rest, keyAllowed := false }

def fetchTag (s : Scan) : Except Fault Scan := do
  let s ← s.saveKey
  let (handle, suffix, rest) ← Property.tag s.inFlow s.here s.stop s.rest
  .ok { s.push (.tag handle suffix) s.here (markAt s.stop rest) with rest, keyAllowed := false }

def fetchBlockScalar (s : Scan) (style : Style) : Except Fault Scan := do
  let s ← s.dropKey
  let r ← Scalar.block (style = .folded) s.here s.stop s.indent (s.rest.drop 1)
  .ok { s.push (.scalar r.text style) s.here r.stop with rest := r.rest, keyAllowed := true }

def fetchQuoted (s : Scan) (style : Style) : Except Fault Scan := do
  let s ← s.saveKey
  let r ← Scalar.quoted (style = .doubleQuoted) s.here s.stop (s.rest.drop 1)
  .ok { s.push (.scalar r.text style) s.here r.stop with rest := r.rest, keyAllowed := false }

def fetchPlain (s : Scan) : Except Fault Scan := do
  let s ← s.saveKey
  let r ← Scalar.plain { inFlow := s.inFlow, indent := s.indent + 1, start := s.here } s.rest
  .ok { s.push (.scalar r.text .plain) s.here r.stop with rest := r.rest, keyAllowed := r.broke }

/-- Whether a plain scalar may begin with `c` when `d` follows. -/
def beginsPlain (inFlow : Bool) (c d : Char) : Bool :=
  (!isGap c && !"-?:,[]\x7b\x7d#&*!|>\x27\x22%@\x60".toList.contains c) ||
    (c = '-' && !isBlank d) ||
    (!inFlow && (c = '?' || c = ':') && !isGap d)

/-- Reads the token at the front. -/
def fetch (s : Scan) : Except Fault Scan :=
  let c := peek s.rest 0
  let d := peek s.rest 1
  let lineStart := s.here.column = 0
  if s.rest.isEmpty then s.fetchEnd
  else if lineStart && c = '%' then s.fetchDirective
  else if lineStart && isSeparator '-' s.rest then s.fetchSeparator .documentStart
  else if lineStart && isSeparator '.' s.rest then s.fetchSeparator .documentEnd
  else if c = '[' then s.fetchFlowStart .flowSequenceStart
  else if c = '\x7b' then s.fetchFlowStart .flowMappingStart
  else if c = ']' then s.fetchFlowEnd .flowSequenceEnd
  else if c = '\x7d' then s.fetchFlowEnd .flowMappingEnd
  else if c = ',' then s.fetchFlowEntry
  else if c = '-' && isGap d then s.fetchBlockEntry
  else if c = '?' && (s.inFlow || isGap d) then s.fetchKey
  else if c = ':' && (s.inFlow || isGap d) then s.fetchValue
  else if c = '*' then s.fetchAnchor .aliasName .aliasOf
  else if c = '&' then s.fetchAnchor .anchorName .anchor
  else if c = '!' then s.fetchTag
  else if c = '|' && !s.inFlow then s.fetchBlockScalar .literal
  else if c = '>' && !s.inFlow then s.fetchBlockScalar .folded
  else if c = '\x27' then s.fetchQuoted .singleQuoted
  else if c = '\x22' then s.fetchQuoted .doubleQuoted
  else if beginsPlain s.inFlow c d then s.fetchPlain
  else .error (.within .nextToken s.here .noTokenStart s.here)

/-- Reads on to the next token and through it. -/
def step (s : Scan) : Except Fault Scan := do
  let s ← s.skipToToken.dropStale
  let s ← (s.unroll s.here.column).fetch
  s.dropStale

/-- The tokens that are certain: none can be inserted in front of them. -/
def certain (s : Scan) : List Token :=
  let first := s.keys.foldl (fun n k => min n k.token) s.tokens.size
  s.tokens.toList.take first

/-- How far ahead of a token is looked. -/
def lookahead : Nat := 4

/-- Reads on to the next token and through it, where `beyond` is the fault that looking behind the
end gives, if it gives one. -/
def stepBefore (beyond : Option Fault) (s : Scan) : Except Fault Scan :=
  match beyond, s.step with
  | none, result => result
  | some b, .ok s' => if (s'.rest.drop (lookahead - 1)).isEmpty then .error b else .ok s'
  | some b, .error fault =>
    .error (if s.stop.index ≤ fault.mark.index + lookahead then b else fault)

/-- Reads all tokens, which takes at most `fuel` steps. -/
def run (beyond : Option Fault) : Nat → Scan → Stream Token
  | 0, s => ⟨s.tokens.toList, none⟩
  | fuel + 1, s =>
    match s.stepBefore beyond with
    | .error fault => ⟨s.certain, some fault⟩
    | .ok s => if s.ended then ⟨s.tokens.toList, none⟩ else run beyond fuel s

end Scan

/-- The tokens of a text, as far as `beyond`, the fault behind its end, allows. -/
def Token.scanBefore (beyond : Option Fault) (text : List Char) : Stream Token :=
  let (rest, stop) := marked .zero text
  let start : Token := ⟨.streamStart, .zero, .zero⟩
  Scan.run beyond (rest.length + 1) { rest, stop, tokens := #[start] }

/-- The tokens of a text. Where reading comes to a block with a character that may not stand in a
text, it ends; in the first block there are no tokens then. -/
def Token.scan (text : List Char) : Stream Token :=
  let fault? := (forbiddenAt? text).map fun offset =>
    { problem := .forbiddenCharacter, mark := .zero, offset : Fault }
  match readable? text with
  | some 0 => ⟨[], fault?⟩
  | some n => Token.scanBefore fault? (text.take n)
  | none => Token.scanBefore none text

end Keyfile.Yaml
