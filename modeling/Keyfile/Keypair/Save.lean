import Keyfile.FileSystem.Operations
import Keyfile.Json.Printer
import Keyfile.Keypair.Basic
import Keyfile.Log

/-!
# Storing keypairs

Bytes are stored as a JSON array. Directories missing on the way to the file are made; the file is
emptied or made, closed to everybody but its owner, and only then written.
-/
namespace Keyfile

/-- How the array of a keypair file is set out: an item a line, or all in one. -/
inductive JsonFormat where
  | pretty
  | compact
  deriving DecidableEq

/-- The name of a layout in a configuration file. -/
def JsonFormat.name : JsonFormat → String
  | pretty => "pretty"
  | compact => "compact"

/-- A JSON value in one of the layouts. -/
def JsonFormat.render (f : JsonFormat) (v : Json) : String :=
  match f with
  | pretty => v.indented
  | compact => v.compact

/-- The content of a keypair file. -/
def JsonFormat.arrayText (f : JsonFormat) (b : Bytes) : String :=
  f.render (.array (b.map fun x => .integer x.toNat))

/-- The mode of keypair files: their owner reads and writes them. -/
def ownerOnly : Nat := 0o600

/-- Makes the directories missing on the way to a path. A path that is a single name needs none. -/
def FileSystem.makeParents (fs : FileSystem) (p : Path) : Progress AccessError :=
  match p.parent? with
  | none => ⟨[], .ok ()⟩
  | some up => if up = [] ∨ fs.pathExists up then ⟨[], .ok ()⟩ else fs.makeDirectories up

/-- Empties or makes a file, closes it to others, and writes it. -/
def FileSystem.writeOwnerOnly (fs : FileSystem) (p : Path) (content : Bytes) :
    Progress AccessError :=
  match fs.openEmpty ownerOnly p with
  | .error e => ⟨[], .error e⟩
  | .ok (opened, l) =>
    let closed := opened.setModeAt l ownerOnly
    ⟨[opened, closed, closed.setContentAt l content], .ok ()⟩

/-- Stores bytes in a file, one state of the tree after the other. -/
def saveSteps (fs : FileSystem) (b : Bytes) (p : Path) (f : JsonFormat) : Progress KeypairError :=
  let refuse (e : AccessError) : KeypairError := .writeFailure p e.message
  let parents := fs.makeParents p
  match parents.result with
  | .error e => ⟨parents.states, .error (refuse e)⟩
  | .ok _ =>
    let written := (parents.final fs).writeOwnerOnly p (Utf8.ofString (f.arrayText b))
    ⟨parents.states ++ written.states, written.result.mapError refuse⟩

/-- Stores bytes in a file: the tree afterwards, whether or not that succeeded, and the result. -/
def save (fs : FileSystem) (b : Bytes) (p : Path) (f : JsonFormat) : FileSystem × Logged Unit :=
  let steps := saveSteps fs b p f
  (steps.final fs,
    match steps.result with
    | .ok _ => ⟨[.saved p], .ok ()⟩
    | .error e => ⟨[], .error e⟩)

end Keyfile
