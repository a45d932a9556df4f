import Keyfile.Yaml.Token.Scan

/-!
# Events

The structure of a YAML text, in the order in which it is written: documents, the beginnings and
ends of collections, scalars and aliases. Events are found by working off a stack of parts that are
expected; a fault among the tokens counts only once the events in front of it are out.
-/
namespace Keyfile.Yaml

/-- What may stand in front of a node. -/
structure Properties where
  anchor : Option (List Char) := none
  tag : Option Bytes := none
  deriving DecidableEq

inductive Event.Kind where
  | documentStart
  | documentEnd
  | aliasOf (name : List Char)
  | scalar (properties : Properties) (text : List Char) (style : Style)
  | sequenceStart (properties : Properties)
  | sequenceEnd
  | mappingStart (properties : Properties)
  | mappingEnd
  deriving DecidableEq

structure Event where
  kind : Event.Kind
  mark : Mark
  deriving DecidableEq

/-- A part of a text that is expected. Parts of a collection know where it began. -/
inductive Part where
  /-- A document, or the end of the text. Only the first may begin without a separator. -/
  | document (first : Bool)
  | content
  | documentEnd
  | node (inBlock dashes : Bool)
  | blockEntries (start : Mark)
  /-- The entries of a sequence at the column of the mapping around it. -/
  | dashEntries
  | blockKeys (start : Mark)
  | blockValue
  | flowEntries (start : Mark) (first : Bool)
  /-- The key of a pair that is itself an entry of a flow sequence. -/
  | pairKey
  | pairValue
  | pairEnd
  | flowKeys (start : Mark) (first : Bool)
  | flowValue
  | flowNoValue

/-- What is known between two events. -/
structure Outline where
  tokens : List Token
  /-- The fault behind the tokens. -/
  fault : Option Fault
  parts : List Part := [.document true]
  /-- The meaning of tag handles in this document. -/
  handles : List (Bytes × Bytes) := []

/-- The handles that every document has. -/
def standardHandles : List (Bytes × Bytes) :=
  [(Utf8.ofString "!", Utf8.ofString "!"),
   (Utf8.ofString "!!", Utf8.ofString "tag:yaml.org,2002:")]

namespace Outline

abbrev Step := StateT Outline (Except Fault)

/-- The next token, left in place. -/
def next : Step Token := fun o =>
  match o.tokens, o.fault with
  | t :: _, _ => .ok (t, o)
  | [], some fault => .error fault
  | [], none => .error { problem := .missingStreamStart, mark := .zero }

def skip : Step Unit := modify fun o => { o with tokens := o.tokens.tail }

/-- Expects parts in front of the others. -/
def expect (parts : List Part) : Step Unit := modify fun o => { o with parts := parts ++ o.parts }

def emit (kind : Event.Kind) (mark : Mark) : Step (Option Event) := return some ⟨kind, mark⟩

/-- A scalar that is not written. -/
def emitEmpty (mark : Mark) : Step (Option Event) := emit (.scalar {} [] .plain) mark

def refuse {α : Type} (fault : Fault) : Step α := fun _ => .error fault

/-! ## Documents -/

/-- Whether a token ends the content of a document. -/
def endsContent : Token.Kind → Bool
  | .versionDirective .. | .tagDirective .. | .documentStart | .documentEnd | .streamEnd => true
  | _ => false

/-- Reads the directives in front of a document: whether there was a version so far, and handles. -/
def directives (version : Bool) (handles : List (Bytes × Bytes)) :
    List Token → Except Fault (List (Bytes × Bytes) × List Token)
  | [] => .ok (handles, [])
  | t :: r =>
    match t.kind with
    | .versionDirective major minor =>
      if version then .error { problem := .duplicateVersion, mark := t.start }
      else if major ≠ 1 || (minor ≠ 1 && minor ≠ 2) then
        .error { problem := .incompatibleVersion, mark := t.start }
      else directives true handles r
    | .tagDirective handle uri =>
      if handles.any (·.1 = handle) then .error { problem := .duplicateTag, mark := t.start }
      else directives version (handles ++ [(handle, uri)]) r
    | _ => .ok (handles, t :: r)

def document (first : Bool) : Step (Option Event) := do
  let t ← next
  if t.kind = .documentEnd && !first then
    skip
    expect [.document false]
    return none
  else if t.kind = .streamEnd then
    skip
    return none
  else if first && (!endsContent t.kind || t.kind = .documentEnd) then
    modify fun o => { o with handles := standardHandles }
    expect [.node true false, .documentEnd]
    emit .documentStart t.start
  else
    let (handles, tokens) ← (directives false [] (← get).tokens : Except Fault _)
    modify fun o => { o with handles := handles ++ standardHandles, tokens }
    let t' ← next
    if t'.kind ≠ .documentStart then
      refuse { problem := .missingDocumentStart, mark := t'.start }
    else
      skip
      expect [.content, .documentEnd]
      emit .documentStart t.start

def content : Step (Option Event) := do
  let t ← next
  if endsContent t.kind then emitEmpty t.start
  else
    expect [.node true false]
    return none

def documentEnd : Step (Option Event) := do
  let t ← next
  if t.kind = .documentEnd then skip
  modify fun o => { o with handles := [] }
  expect [.document false]
  emit .documentEnd t.start

/-! ## Nodes -/

def anchor? : Step (Option (List Char)) := do
  match (← next).kind with
  | .anchor name =>
    skip
    return some name
  | _ => return none

/-- The handle, suffix and position of a tag that stands here. -/
def tag? : Step (Option (Bytes × Bytes × Mark)) := do
  let t ← next
  match t.kind with
  | .tag handle suffix =>
    skip
    return some (handle, suffix, t.start)
  | _ => return none

/-- A tag in full: what its handle stands for and its suffix. -/
def resolve (start : Mark) (handle suffix : Bytes) (mark : Mark) : Step Bytes := do
  if handle.isEmpty then return suffix
  else
    match (← get).handles.lookup handle with
    | some uri => return uri ++ suffix
    | none => refuse (.within .node start .undefinedHandle mark)

/-- The properties in front of a node that begins at `start`, in either order. What stands behind
them is looked at before the meaning of the tag. -/
def properties (start : Mark) : Step Properties := do
  let anchor ← anchor?
  let tag ← tag?
  let anchor ← match anchor, tag with
    | none, some _ => anchor?
    | _, _ => pure anchor
  match tag with
  | none => return { anchor }
  | some (handle, suffix, mark) =>
    let _ ← next
    let tag ← resolve start handle suffix mark
    return { anchor, tag := some tag }

/-- A node. Sequences and mappings without brackets may begin only where `inBlock` holds, and a
sequence at the column of the mapping around it only where `dashes` holds. -/
def node (inBlock dashes : Bool) : Step (Option Event) := do
  let first ← next
  match first.kind with
  | .aliasOf name =>
    skip
    emit (.aliasOf name) first.start
  | _ =>
    let p ← properties first.start
    let t ← next
    let collection (kind : Event.Kind) (part : Part) : Step (Option Event) := do
      skip
      expect [part]
      emit kind first.start
    match t.kind with
    | .scalar text style =>
      skip
      emit (.scalar p text style) first.start
    | .flowSequenceStart => collection (.sequenceStart p) (.flowEntries t.start true)
    | .flowMappingStart => collection (.mappingStart p) (.flowKeys t.start true)
    | kind =>
      if dashes && kind = .blockEntry then
        expect [.dashEntries]
        emit (.sequenceStart p) first.start
      else if inBlock && kind = .blockSequenceStart then
        collection (.sequenceStart p) (.blockEntries t.start)
      else if inBlock && kind = .blockMappingStart then
        collection (.mappingStart p) (.blockKeys t.start)
      else if p.anchor.isSome || p.tag.isSome then emit (.scalar p [] .plain) first.start
      else
        let context := if inBlock then Context.blockNode else .flowNode
        refuse (.within context first.start .missingContent t.start)

/-! ## Collections by indentation -/


/-- Skips an indicator and expects a node, which may be missing, and then `rest`. -/
def blockItem (t : Token) (missing : Token.Kind → Bool) (dashes : Bool) (rest : Part) :
    Step (Option Event) := do
  skip
  let following ← next
  if missing following.kind then
    expect [rest]
    emitEmpty t.stop
  else
    expect [.node true dashes, rest]
    return none

def blockEntries (start : Mark) : Step (Option Event) := do
  let t ← next
  match t.kind with
  | .blockEntry =>
    blockItem t (fun k => k = .blockEntry || k = .blockEnd) false (.blockEntries start)
  | .blockEnd =>
    skip
    emit .sequenceEnd t.start
  | _ => refuse (.within .blockSequence start .missingDash t.start)

def dashEntries : Step (Option Event) := do
  let t ← next
  match t.kind with
  | .blockEntry =>
    blockItem t (fun k => k = .blockEntry || k = .key || k = .value || k = .blockEnd) false
      .dashEntries
  | _ => emit .sequenceEnd t.start

def isKeyOrEnd (k : Token.Kind) : Bool := k = .key || k = .value || k = .blockEnd

def blockKeys (start : Mark) : Step (Option Event) := do
  let t ← next
  match t.kind with
  | .key =>
    expect [.blockKeys start]
    blockItem t isKeyOrEnd true .blockValue
  | .blockEnd =>
    skip
    emit .mappingEnd t.start
  | _ => refuse (.within .blockMapping start .missingKey t.start)

def blockValue : Step (Option Event) := do
  let t ← next
  match t.kind with
  | .value =>
    skip
    let following ← next
    if isKeyOrEnd following.kind then emitEmpty t.stop
    else
      expect [.node true true]
      return none
  | _ => emitEmpty t.start

/-! ## Collections in brackets -/

/-- Skips the comma between two entries. -/
def comma (first : Bool) (fault : Mark → Fault) : Step Unit := do
  let t ← next
  if first then return ()
  else if t.kind = .flowEntry then skip
  else refuse (fault t.start)

def flowEntries (start : Mark) (first : Bool) : Step (Option Event) := do
  if (← next).kind ≠ .flowSequenceEnd then
    comma first (.within .flowSequence start .missingCommaOrBracket)
  let t ← next
  match t.kind with
  | .flowSequenceEnd =>
    skip
    emit .sequenceEnd t.start
  | .key =>
    skip
    expect [.pairKey, .flowEntries start false]
    emit (.mappingStart {}) t.start
  | _ =>
    expect [.node false false, .flowEntries start false]
    return none

def pairKey : Step (Option Event) := do
  let t ← next
  expect [.pairValue]
  match t.kind with
  | .value | .flowEntry | .flowSequenceEnd =>
    skip
    emitEmpty t.stop
  | _ =>
    expect [.node false false]
    return none

/-- A value in brackets, missing where no colon stands or where `close` or a comma follows it. -/
def valueBefore (close : Token.Kind) : Step (Option Event) := do
  let t ← next
  if t.kind = .value then
    skip
    let following ← next
    if following.kind = .flowEntry || following.kind = close then emitEmpty following.start
    else
      expect [.node false false]
      return none
  else emitEmpty t.start

def pairValue : Step (Option Event) := do
  expect [.pairEnd]
  valueBefore .flowSequenceEnd

def pairEnd : Step (Option Event) := do emit .mappingEnd (← next).start

def flowKeys (start : Mark) (first : Bool) : Step (Option Event) := do
  if (← next).kind ≠ .flowMappingEnd then
    comma first (.within .flowMapping start .missingCommaOrBrace)
  let t ← next
  match t.kind with
  | .flowMappingEnd =>
    skip
    emit .mappingEnd t.start
  | .key =>
    skip
    expect [.flowValue, .flowKeys start false]
    let following ← next
    match following.kind with
    | .value | .flowEntry | .flowMappingEnd => emitEmpty following.start
    | _ =>
      expect [.node false false]
      return none
  | _ =>
    expect [.node false false, .flowNoValue, .flowKeys start false]
    return none

def flowNoValue : Step (Option Event) := do emitEmpty (← next).start

/-! ## The whole text -/

/-- Works off one part. -/
def part : Part → Step (Option Event)
  | .document first => document first
  | .content => content
  | .documentEnd => documentEnd
  | .node inBlock dashes => node inBlock dashes
  | .blockEntries start => blockEntries start
  | .dashEntries => dashEntries
  | .blockKeys start => blockKeys start
  | .blockValue => blockValue
  | .flowEntries start first => flowEntries start first
  | .pairKey => pairKey
  | .pairValue => pairValue
  | .pairEnd => pairEnd
  | .flowKeys start first => flowKeys start first
  | .flowValue => valueBefore .flowMappingEnd
  | .flowNoValue => flowNoValue

/-- Works off all parts, which takes at most `fuel` steps; `seen` are the events so far from back to
front. -/
def run (seen : List Event) : Nat → Outline → Stream Event
  | 0, _ => ⟨seen.reverse, none⟩
  | fuel + 1, o =>
    match o.parts with
    | [] => ⟨seen.reverse, none⟩
    | p :: parts =>
      match part p { o with parts } with
      | .error fault => ⟨seen.reverse, some fault⟩
      | .ok (some e, o) => run (e :: seen) fuel o
      | .ok (none, o) => run seen fuel o

end Outline

/-- The events of a text. At most eight parts are worked off for each token. -/
def Event.read (text : List Char) : Stream Event :=
  let scanned := Token.scan text
  let start := { tokens := scanned.items.drop 1, fault := scanned.fault }
  Outline.run [] (8 * (scanned.items.length + 1)) start

end Keyfile.Yaml
