import Keyfile.FileSystem.Resolve

/-!
# Reading and changing the tree

Reading never changes the tree. Every change below is one step, except that missing directories are
made one after the other: `Progress` keeps every state on the way.
-/
namespace Keyfile

/-- What became of several changes in a row. -/
structure Progress (ε : Type) where
  /-- The states after each change that took effect, in order. -/
  states : List FileSystem
  result : Except ε Unit

/-- The state in the end, given the one at the start. -/
def Progress.final {ε : Type} (p : Progress ε) (fs : FileSystem) : FileSystem :=
  p.states.getLastD fs

namespace FileSystem

/-- The content of the file a path leads to. -/
def readFile (fs : FileSystem) (p : Path) : Except AccessError Bytes := do
  match ← fs.resolve .follow p with
  | .vacant _ _ => throw .notFound
  | .found l =>
    match fs.find? l with
    | some (.file _ content) => return content
    | some (.directory _) => throw .isDirectory
    | _ => throw .notFound

/-- The content of the file a path leads to, as text. -/
def readText (fs : FileSystem) (p : Path) : Except AccessError (List Char) := do
  match Utf8.decode? (← fs.readFile p) with
  | some text => return text
  | none => throw .notText

/-- Whether a path leads to something that exists. -/
def pathExists (fs : FileSystem) (p : Path) : Bool :=
  match fs.resolve .follow p with
  | .ok (.found _) => true
  | _ => false

/-- Whether a path leads to a directory. -/
def isDirectory (fs : FileSystem) (p : Path) : Bool :=
  match fs.resolve .follow p with
  | .ok (.found l) => fs.isDirectoryAt l
  | _ => false

/-- The mode of a new directory in a directory of this mode: the set-group bit is handed down. -/
def directoryMode (parent : Nat) : Nat := 0o755 ||| (parent &&& 0o2000)

/-- The mode of a new directory at this place. -/
def newDirectoryMode (fs : FileSystem) (parent : Location) : Nat :=
  match fs.find? parent with
  | some (.directory mode) => directoryMode mode
  | _ => 0o755

/-- Makes one directory, where nothing of that name exists. -/
def makeDirectory (fs : FileSystem) (p : Path) : Except AccessError FileSystem := do
  match ← fs.resolve .keep p with
  | .found _ => throw .alreadyExists
  | .vacant l n => return fs.set (l ++ [n]) (.directory (fs.newDirectoryMode l))

/-- Makes a directory unless it is there already. -/
def ensureDirectory (fs : FileSystem) (p : Path) : Progress AccessError :=
  match fs.makeDirectory p with
  | .ok made => ⟨[made], .ok ()⟩
  | .error e => ⟨[], if e = .alreadyExists ∧ fs.isDirectory p then .ok () else .error e⟩

/-- Makes the first of these paths, each the parent of the one before it. Only when a directory is
missing on the way are the paths behind made first. -/
def ensureAll (fs : FileSystem) : List Path → Progress AccessError
  | [] => ⟨[], .ok ()⟩
  | p :: up =>
    let first := fs.ensureDirectory p
    match first.result with
    | .error .notFound =>
      let above := ensureAll fs up
      match above.result with
      | .error e => ⟨above.states, .error e⟩
      | .ok _ =>
        let last := (above.final fs).ensureDirectory p
        ⟨above.states ++ last.states, last.result⟩
    | _ => first

/-- Makes a directory and all that are missing on the way to it. -/
def makeDirectories (fs : FileSystem) (p : Path) : Progress AccessError :=
  fs.ensureAll p.ancestors

/-- Empties the file a path leads to, or makes an empty one of this mode. The answer holds the
location of the file. -/
def openEmpty (fs : FileSystem) (mode : Nat) (p : Path) :
    Except AccessError (FileSystem × Location) := do
  match ← fs.resolve .create p with
  | .vacant l n => return (fs.set (l ++ [n]) (.file mode []), l ++ [n])
  | .found l =>
    match fs.find? l with
    | some (.file old _) => return (fs.set l (.file old []), l)
    | _ => throw .isDirectory

/-- Sets the mode of the file at a location. -/
def setModeAt (fs : FileSystem) (l : Location) (mode : Nat) : FileSystem :=
  match fs.find? l with
  | some (.file _ content) => fs.set l (.file mode content)
  | some (.directory _) => fs.set l (.directory mode)
  | _ => fs

/-- Writes the content of the file at a location. -/
def setContentAt (fs : FileSystem) (l : Location) (content : Bytes) : FileSystem :=
  match fs.find? l with
  | some (.file mode _) => fs.set l (.file mode content)
  | _ => fs

/-- Writes a whole file; a new one can be read by everybody. -/
def writeFile (fs : FileSystem) (p : Path) (content : Bytes) : Except AccessError FileSystem := do
  let (fs, l) ← fs.openEmpty 0o644 p
  return fs.setContentAt l content

/-- Sets the mode of what a path leads to. -/
def setMode (fs : FileSystem) (p : Path) (mode : Nat) : Except AccessError FileSystem := do
  match ← fs.resolve .follow p with
  | .vacant _ _ => throw .notFound
  | .found l => return fs.setModeAt l mode

/-- Makes a link that holds a path. -/
def makeLink (fs : FileSystem) (p target : Path) : Except AccessError FileSystem := do
  if 0 ∈ target then throw .zeroByte
  if target = [] then throw .notFound
  if 4096 ≤ target.length then throw .nameTooLong
  match ← fs.resolve .keep p with
  | .found _ => throw .alreadyExists
  | .vacant l n =>
    if p.endsInSlash then throw .notFound
    return fs.set (l ++ [n]) (.link target)

/-- Removes a file or a link. -/
def unlink (fs : FileSystem) (p : Path) : Except AccessError FileSystem := do
  match ← fs.resolve .keep p with
  | .vacant _ _ => throw .notFound
  | .found l =>
    if fs.isDirectoryAt l then throw .isDirectory
    if p.endsInSlash then throw .notDirectory
    return fs.erase l

/-- What lies below the working directory, each entry with its path from there, in the order of the
paths. -/
def listing (fs : FileSystem) : List (Path × Entry) :=
  let below := fs.entries.filterMap fun (l, e) =>
    if fs.working.isPrefixOf l ∧ l ≠ fs.working then
      some (Path.ofSegments (l.drop fs.working.length), e)
    else none
  below.mergeSort fun x y => !decide (y.1 < x.1)

end FileSystem

end Keyfile
