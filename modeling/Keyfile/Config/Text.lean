import Keyfile.Config.Basic
import Keyfile.Config.Fault

/-!
# Settings in a text

The text of a configuration file is one YAML document: a mapping, or nothing. Keys that name no
field are ignored with their values. Items are looked at in order, and the first fault counts.
-/
namespace Keyfile.Config

open Yaml (Document Item)

/-- The name in a tag of one's own, which begins with an exclamation mark. -/
def ownTag? (tag : Option Bytes) : Option (List Char) := do
  let tag ← tag
  let mark :: rest := tag | none
  if mark = 0x21 then Utf8.decode? (if rest.isEmpty then tag else rest) else none

/-- The tag of a kind of scalars that the format itself defines. -/
def standardTag (kind : String) : Bytes := Utf8.ofString ("tag:yaml.org,2002:" ++ kind)

/-- A kind that a tag asks for, and the value of that kind that a text spells. -/
def tagged? (tag : Bytes) (text : List Char) : Option (Expected × Option Yaml.Value) :=
  if tag = standardTag "bool" then some (.bool, (Yaml.Value.bool? text).map .bool)
  else if tag = standardTag "int" then some (.integer, (Yaml.Value.integer? text).map .integer)
  else if tag = standardTag "float" then some (.float, Yaml.Value.float? text)
  else if tag = standardTag "null" then
    some (.null, if Yaml.Value.isNull text then some .null else none)
  else none

/-- What is wrong with a scalar where something else is expected. -/
def scalarCause (tag : Option Bytes) (text : List Char) (style : Yaml.Style) (expected : Expected) :
    Cause :=
  let plain := if style = .plain then Yaml.Value.ofPlain text else .text text
  match tag with
  | none => .wrongKind (.value plain) expected
  | some tag =>
    match tagged? tag text with
    | some (_, some v) => .wrongKind (.value v) expected
    | some (kind, none) => .wrongValue text kind
    | none => .wrongKind (.value (if tag.head? = some 0x21 then plain else .text text)) expected

/-- What is wrong with an item where something else is expected. -/
def causeAt (i : Item) (expected : Expected) : Cause :=
  match i.kind with
  | .scalar tag text style => scalarCause tag text style expected
  | .sequenceStart _ | .sequenceEnd => .wrongKind .sequence expected
  | .mappingStart _ | .mappingEnd | .reference _ => .wrongKind .mapping expected

/-- The fault when the items end too early. -/
def missing (d : Document) : Fault :=
  match d.fault with
  | some fault => .document fault
  | none => .ended

/-- The text of a scalar, directly or by reference. -/
def textOf (d : Document) (i : Item) (expected : Expected) (key : Option (List Char)) :
    Except Fault (List Char) :=
  let t := d.target i
  match t.kind with
  | .scalar _ text _ => .ok text
  | _ => .error (.content (causeAt t expected) t.mark key)

def formatNamed? (name : List Char) : Option JsonFormat :=
  [JsonFormat.pretty, .compact].find? fun f => f.name.toList = name

/-- What is wrong with the item behind a tag that names a format, which should be null. -/
def notNull? (i : Item) : Option Cause :=
  match i.kind with
  | .scalar _ text style =>
    if style = .plain && (text.isEmpty || Yaml.Value.isNull text) then none
    else some (.wrongValue text .null)
  | _ => some (causeAt i .unit)

/-- A format: its name as a scalar, or as a tag in front of null. A fault in a tag itself is placed
at the mapping, or at a reference. -/
def formatOf (d : Document) (mapping : Yaml.Mark) (i : Item) (key : List Char) :
    Except Fault JsonFormat :=
  let t := d.target i
  let tag := match t.kind with
    | .scalar tag _ _ | .sequenceStart tag | .mappingStart tag => ownTag? tag
    | _ => none
  match tag with
  | some name =>
    match formatNamed? name, notNull? t, i.kind with
    | some f, none, _ => .ok f
    | some _, some cause, _ => .error (.content cause t.mark (some key))
    | none, _, .reference _ => .error (.content (.unknownFormat name) i.mark (some key))
    | none, _, _ => .error (.content (.unknownFormat name) mapping none)
  | none => do
    let name ← textOf d i .tag (some key)
    match formatNamed? name with
    | some f => .ok f
    | none => .error (.content (.unknownFormat name) t.mark (some key))

/-- What the entries so far say. -/
structure Partial where
  outfile : Option Path := none
  format : Option JsonFormat := none

def Partial.config (p : Partial) : Config :=
  let standard : Config := {}
  { defaultOutfile := p.outfile.getD standard.defaultOutfile
    jsonFormat := p.format.getD standard.jsonFormat }

def field? (name : List Char) : Option Field :=
  [Field.defaultOutfile, .jsonFormat].find? fun f => f.name.toList = name

/-- Reads the value of a field. -/
def readField (d : Document) (mapping : Yaml.Mark) (p : Partial) (field : Field) (key : List Char)
    (i : Item) : Except Fault Partial :=
  match field with
  | .defaultOutfile => do
    let text ← textOf d i .path (some key)
    .ok { p with outfile := some (Utf8.encode text) }
  | .jsonFormat => do
    let format ← formatOf d mapping i key
    .ok { p with format := some format }

def Partial.has (p : Partial) : Field → Bool
  | .defaultOutfile => p.outfile.isSome
  | .jsonFormat => p.format.isSome

/-- How a key appears in faults: as it is written, or as a question mark when it is a reference. -/
def keyShown (i : Item) : List Char :=
  match i.kind with
  | .scalar _ text _ => text
  | _ => ['?']

/-- Reads the entries of a mapping, at most `fuel` of them. -/
def readEntries (d : Document) (mapping : Yaml.Mark) :
    (fuel : Nat) → Partial → List Item → Except Fault Partial
  | 0, p, _ => .ok p
  | _, _, [] => .error (missing d)
  | fuel + 1, p, i :: r =>
    match i.kind with
    | .mappingEnd => .ok p
    | _ => do
      match field? (← textOf d i .fieldName none) with
      | none =>
        match Yaml.skipNode 0 r with
        | none => .error (missing d)
        | some r => readEntries d mapping fuel p r
      | some field =>
        if p.has field then .error (.content (.duplicate field) mapping none)
        else
          match r with
          | [] => .error (missing d)
          | v :: r =>
            let p ← readField d mapping p field (keyShown i) v
            readEntries d mapping fuel p r

/-- Reads the node of a document. Nothing and an empty plain scalar stand for no settings. -/
def readNode (d : Document) : Except Fault Partial :=
  match d.items.toList, d.fault with
  | [], none => .ok {}
  | [], some fault => .error (.document fault)
  | i :: r, _ =>
    match i.kind with
    | .mappingStart _ => readEntries d i.mark (r.length + 1) {} r
    | .scalar _ [] .plain => .ok {}
    | _ => .error (.content (causeAt i .settings) i.mark none)

/-- The settings in a text. -/
def ofText (text : List Char) : Except Fault Config := do
  let d := Document.read text
  let p ← readNode d
  match d.fault with
  | some fault => .error (.document fault)
  | none => if d.more then .error .manyDocuments else .ok p.config

end Keyfile.Config
