import Keyfile.Yaml.Event

/-!
# Documents

The first document of a text as a flat list of items, in which each alias has become a reference by
number. Numbers are counted by the distinct names so far, so an anchor that takes up an earlier name
also takes up a number that a later anchor may get again; the last anchor with a number has it.
-/
namespace Keyfile.Yaml

inductive Item.Kind where
  | reference (number : Nat)
  | scalar (tag : Option Bytes) (text : List Char) (style : Style)
  | sequenceStart (tag : Option Bytes)
  | sequenceEnd
  | mappingStart (tag : Option Bytes)
  | mappingEnd

structure Item where
  kind : Item.Kind
  mark : Mark

/-- What ends the reading of a document early. -/
inductive Document.Fault where
  | text (fault : Yaml.Fault)
  | unknownAnchor (mark : Mark)

structure Document where
  items : Array Item := #[]
  fault : Option Document.Fault := none
  /-- The numbers of names. -/
  names : List (List Char × Nat) := []
  /-- The places in `items` that numbers refer to, the latest in front. -/
  places : List (Nat × Nat) := []
  /-- Whether anything comes after this document. -/
  more : Bool := false

namespace Document

def add (d : Document) (kind : Item.Kind) (mark : Mark) : Document :=
  { d with items := d.items.push ⟨kind, mark⟩ }

/-- Gives the name of an anchor to the next item. -/
def anchor (d : Document) : Option (List Char) → Document
  | none => d
  | some name =>
    let number := d.names.length
    { d with
      names := (name, number) :: d.names.filter (·.1 ≠ name)
      places := (number, d.items.size) :: d.places }

/-- Reads events on, with the fault behind them. -/
def readFrom (d : Document) (fault : Option Yaml.Fault) : List Event → Document
  | [] => { d with fault := fault.map .text }
  | e :: r =>
    match e.kind with
    | .documentStart => readFrom d fault r
    | .documentEnd => { d with more := !r.isEmpty || fault.isSome }
    | .aliasOf name =>
      match d.names.lookup name with
      | some number => readFrom (d.add (.reference number) e.mark) fault r
      | none => { d with fault := some (.unknownAnchor e.mark) }
    | .scalar p text style =>
      readFrom ((d.anchor p.anchor).add (.scalar p.tag text style) e.mark) fault r
    | .sequenceStart p => readFrom ((d.anchor p.anchor).add (.sequenceStart p.tag) e.mark) fault r
    | .sequenceEnd => readFrom (d.add .sequenceEnd e.mark) fault r
    | .mappingStart p => readFrom ((d.anchor p.anchor).add (.mappingStart p.tag) e.mark) fault r
    | .mappingEnd => readFrom (d.add .mappingEnd e.mark) fault r

/-- The first document of a text. -/
def read (text : List Char) : Document :=
  let events := Event.read text
  readFrom {} events.fault events.items

/-- An item, or the item that it refers to. -/
def target (d : Document) (i : Item) : Item :=
  match i.kind with
  | .reference number =>
    match d.places.lookup number with
    | some place => d.items[place]?.getD i
    | none => i
  | _ => i

end Document

/-- What follows the node at the front, inside `depth` further collections; nothing if the items end
before it does. -/
def skipNode : (depth : Nat) → List Item → Option (List Item)
  | _, [] => none
  | depth, i :: r =>
    match i.kind with
    | .sequenceStart _ | .mappingStart _ => skipNode (depth + 1) r
    | .sequenceEnd | .mappingEnd => if depth ≤ 1 then some r else skipNode (depth - 1) r
    | _ => if depth = 0 then some r else skipNode depth r

end Keyfile.Yaml
