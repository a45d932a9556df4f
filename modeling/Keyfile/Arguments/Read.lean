import Keyfile.Arguments.Usage
import Keyfile.Text.Similarity

/-!
# Reading arguments

Arguments are looked at one after the other. An option that takes a value stays open until the next
argument shows whether it gets one; only then it counts. Behind two hyphens alone everything is a
file. Once all arguments have been read, those that exclude each other are refused.
-/
namespace Keyfile.Arguments

/-- What the arguments ask for. -/
inductive Request where
  | help
  | version
  | run (a : Arguments)
  deriving DecidableEq

/-- The arguments that count so far, and the one that is still open. -/
structure Progress where
  given : List (Switch × Option Path) := []
  pending : Option (Switch × Option Path) := none
  deriving DecidableEq

namespace Progress

/-- The switches in use, in the order in which they count. -/
def used (p : Progress) : List Switch := p.given.map (·.1)

/-- Adds a switch; a refusal tells why, and what counts then still matters for the usage line. -/
def add (p : Progress) (s : Switch) (value : Option Path) : Progress × Option Misuse :=
  if s = .config ∧ value = none then (p, some (.missingValue s))
  else if s ∈ p.used then
    ({ p with given := p.given.filter (·.1 ≠ s) }, some (.repeated s))
  else
    ({ p with given := p.given ++ [(s, value)] },
      if value = some [] then some (.missingValue s) else none)

/-- Adds the open switch. -/
def close (p : Progress) : Progress × Option Misuse :=
  match p.pending with
  | none => (p, none)
  | some (s, value) => { p with pending := none }.add s value

/-- Adds the open switch, which must be accepted. -/
def settle (p : Progress) : Except Misuse Progress :=
  match p.close with
  | (p, none) => .ok p
  | (_, some m) => .error m

/-- Adds the open switch and then another. -/
def accept (p : Progress) (s : Switch) (value : Option Path) : Except Misuse Progress := do
  match (← p.settle).add s value with
  | (p, none) => .ok p
  | (_, some m) => .error m

/-- Opens a switch, after the one that is open. -/
def openWith (p : Progress) (s : Switch) (value : Option Path) : Except Misuse Progress := do
  let p ← p.settle
  .ok { p with pending := some (s, value) }

/-- Whether a keypair file has been given. -/
def hasFile (p : Progress) : Bool :=
  .keypairFile ∈ p.used || (p.pending.map (·.1)) = some .keypairFile

/-- An argument that is no option: the keypair file, unless there is one. -/
def file (p : Progress) (arg : Bytes) : Except Misuse Progress :=
  if p.hasFile then .error (.unexpected (Utf8.lossy arg) none [])
  else p.openWith .keypairFile (some arg)

end Progress

/-! ## One argument -/

/-- What an argument looks like before its meaning is known. -/
inductive Shape where
  /-- Two hyphens alone. -/
  | separator
  /-- Two hyphens and a name, perhaps with a value behind an equals sign. -/
  | long (name : Bytes) (value : Option Bytes)
  | short (letters : Bytes)
  | plain

def hyphen : UInt8 := 0x2D

def equalsSign : UInt8 := 0x3D

def Shape.of : Bytes → Shape
  | a :: b :: r =>
    if a ≠ hyphen then .plain
    else if b ≠ hyphen then .short (b :: r)
    else if r.isEmpty then .separator
    else
      let name := r.takeWhile (· ≠ equalsSign)
      match r.drop name.length with
      | [] => .long name none
      | _ :: value => .long name (some value)
  | _ => .plain

def switchNamed? (name : Bytes) : Option Switch :=
  Switch.options.find? fun s => Utf8.ofString s.name = name

/-- The refusal of an unknown name, with a similar option as a tip if there is one. -/
def unknown (p : Progress) (name : Bytes) : Misuse :=
  let p := p.close.1
  let text := Utf8.lossy name
  let words := Switch.options.map fun s => s.name.toList
  let meant? := (Similarity.closest? text.toList words).bind fun w =>
    switchNamed? (Utf8.encode w)
  match meant? with
  | some s => .unexpected ("--" ++ text) (some (.similar s)) (p.used ++ [s])
  | none => .unexpected ("--" ++ text) (some .value) p.used

/-- What is shown of a group of letters: the first one, or all when none can be told. -/
def firstLetter (letters : Bytes) : String :=
  match (Utf8.pieces letters).head? with
  | some (some c) => "-" ++ String.singleton c
  | _ => "-" ++ Utf8.lossy letters

/-- Reads a named option: either all is settled, or reading goes on. -/
def named (p : Progress) (name : Bytes) (value : Option Bytes) :
    Except Misuse (Request ⊕ Progress) := do
  match switchNamed? name with
  | none => .error (unknown p name)
  | some s =>
    if s.takesValue then
      match value with
      | some v => .inr <$> p.accept s (some v)
      | none => .inr <$> p.openWith s none
    else
      match s, value with
      | _, some v => .error (.unexpectedValue (Utf8.lossy v) s p.used)
      | .help, none => do
        let _ ← p.settle
        .ok (.inl .help)
      | .version, none => do
        let _ ← p.settle
        .ok (.inl .version)
      | s, none => .inr <$> p.accept s none

/-- Reads letters behind a hyphen; the first one decides. -/
def letters (p : Progress) (letters : Bytes) : Except Misuse (Request ⊕ Progress) := do
  if letters.head? = some 0x68 then
    let _ ← p.settle
    .ok (.inl .help)
  else if letters.head? = some 0x56 then
    let _ ← p.settle
    .ok (.inl .version)
  else .error (.unexpected (firstLetter letters) (some .value) [])

/-- Reads an argument that is no option: the value of the open option, or a file. -/
def plain (p : Progress) (arg : Bytes) : Except Misuse Progress :=
  match p.pending with
  | some (s, none) => .ok { p with pending := some (s, some arg) }
  | _ => p.file arg

/-! ## All arguments -/

/-- Refuses the first switch in use that excludes others in use. -/
def check (used : List Switch) : Except Misuse Unit :=
  let conflict (s : Switch) := used.filter fun t => decide (t ∈ s.excludes)
  match used.find? fun s => !(conflict s).isEmpty with
  | none => .ok ()
  | some s => .error (.excluded s (conflict s) (used.filter fun t => decide (t ∉ conflict s)))

/-- The arguments that switches with values amount to. -/
def ofGiven (given : List (Switch × Option Path)) : Arguments :=
  let value (s : Switch) : Option (Option Path) := given.lookup s
  { keypairFile := (value .keypairFile).join
    save := value .save
    interactive := (value .interactive).isSome
    json := (value .json).isSome
    jsonCompact := (value .jsonCompact).isSome
    config := (value .config).join }

def finish (p : Progress) : Except Misuse Request := do
  let p ← p.settle
  check p.used
  .ok (.run (ofGiven p.given))

/-- Reads arguments on; `filesOnly` holds behind two hyphens alone. -/
def readFrom (filesOnly : Bool) (p : Progress) : List Bytes → Except Misuse Request
  | [] => finish p
  | arg :: rest => do
    if filesOnly then readFrom true (← p.file arg) rest
    else
      match Shape.of arg with
      | .separator => readFrom true p rest
      | .plain => readFrom false (← plain p arg) rest
      | .long name value =>
        match ← named p name value with
        | .inl request => .ok request
        | .inr p => readFrom false p rest
      | .short text =>
        match ← letters p text with
        | .inl request => .ok request
        | .inr p => readFrom false p rest

/-- Reads the arguments of the command line. -/
def read (args : List Bytes) : Except Misuse Request := readFrom false {} args

end Keyfile.Arguments
