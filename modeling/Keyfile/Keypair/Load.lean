import Keyfile.FileSystem.Operations
import Keyfile.Json.Printer
import Keyfile.Json.Reader
import Keyfile.Keypair.Basic
import Keyfile.Log

/-!
# Reading keypairs

A keypair file holds a JSON array of bytes in one of two layouts: the 32 bytes of a seed, or the 64
bytes of a keypair whose second half must be the public key of the first. `origin` names where the
bytes came from and appears in errors.
-/
namespace Keyfile

/-- The first item that is no byte, with its index counted from `i`, or else the bytes. -/
def bytesOrBad (i : Nat) : List Json → Except (Nat × Json) Bytes
  | [] => .ok []
  | v :: r =>
    match v.byte? with
    | none => .error (i, v)
    | some b => (bytesOrBad (i + 1) r).map (b :: ·)

/-- The bytes of a JSON array of bytes. -/
def readByteArray (text : List Char) (origin : String) : Except KeypairError Bytes :=
  match Json.read text with
  | .error f => .error (.malformedInput origin (f.message text))
  | .ok (.array items) =>
    match bytesOrBad 0 items with
    | .ok b => .ok b
    | .error (i, v) =>
      .error (.malformedInput origin
        ("element " ++ toString i ++ " is not a byte value: " ++ v.compact))
  | .ok _ =>
    .error (.malformedInput origin "expected keypair file to contain an array of bytes")

namespace Keypair

/-- The keypair that 32 or 64 bytes lay out. -/
def ofLayout (b : Bytes) (origin : String) : Except KeypairError Keypair :=
  if b.length = 32 ∨ b.length = 64 then
    match Seed.ofBytes? (b.take 32) with
    | none => .error (.invalidLength origin b.length)
    | some s =>
      let k := ofSeed s
      if b.length = 64 ∧ b.drop 32 ≠ k.publicKey.bytes then
        .error (.invalidSecret origin k.publicKey.text (Base58.encode (b.drop 32)))
      else .ok k
  else .error (.invalidLength origin b.length)

/-- The keypair of 32 or 64 bytes; the number of bytes is logged first. -/
def ofBytes (b : Bytes) (origin : String) : Logged Keypair :=
  ⟨[.loadedLength b.length], ofLayout b origin⟩

/-- The keypair of a JSON text. -/
def ofText (text : List Char) (origin : String) : Logged Keypair :=
  match readByteArray text origin with
  | .error e => ⟨[], .error e⟩
  | .ok b => ofBytes b origin

/-- The keypair of a file. -/
def load (fs : FileSystem) (path : Path) : Logged Keypair :=
  match fs.readText path with
  | .error .notFound => ⟨[], .error (.fileNotFound path)⟩
  | .error e => ⟨[], .error (.fileRead path e.message)⟩
  | .ok text => ofText text path.display

end Keypair

end Keyfile
