import Keyfile.Program

/-!
# The command line

A run is worked out on a picture of the files that it may look at; then what changed in the picture
is carried out. When a run asks for a line, the output so far is shown, a line is read, and the run
is worked out again with it.
-/
namespace Keyfile.CommandLine

/-- The location that a path spells, without regard to links. -/
def location (working : Location) (p : Path) : Location :=
  let step (l : Location) (n : Name) : Location :=
    if n = Path.dot then l else if n = Path.dotDot then l.dropLast else l ++ [n]
  p.names.foldl step (if p.isAbsolute then [] else working)

/-- The absolute path of a location. -/
def pathText (l : Location) : String := "/" ++ (Path.ofSegments l).display

/-- What the system has at a location, links followed; nothing where it shows nothing. -/
def observed (l : Location) : IO (Option Entry) := do
  let text := pathText l
  try
    if (← ((← IO.currentDir) / text).metadata).type matches .dir then
      return some (.directory 0o755)
    else return some (.file 0o644 (← IO.FS.readBinFile text).toList)
  catch _ => return none

/-- Adds a path, and the directories on the way to it, to a picture. -/
def observe (fs : FileSystem) (p : Path) : IO FileSystem :=
  let l := location fs.working p
  (List.range (l.length + 1)).foldlM (fun fs n => do
    match ← observed (l.take n) with
    | some e => return fs.set (l.take n) e
    | none => return fs) fs

/-- The files that matter for arguments and the lines that were read. -/
def picture (a : Arguments) (env : Environment) (input : Bytes) : IO FileSystem := do
  let working := location [] (Path.ofString (toString (← IO.currentDir)))
  let fs ← (a.keypairFile.toList ++ (Config.location a.config env).toList).foldlM observe
    (← observe { entries := [], working } [])
  let standard := match (Config.load fs a.config env).result with
    | .ok (_, config) => [config.defaultOutfile]
    | .error _ => []
  let typed := (input.splitOn 0x0A).map fun line =>
    Utf8.encode (Blank.trim ((Utf8.decode? line).getD []))
  (standard ++ a.save.join.toList ++ typed).foldlM observe fs

/-- Carries out what changed between two pictures. -/
def carryOut (before after : FileSystem) : IO Unit := do
  for (l, e) in after.entries do
    if before.find? l ≠ some e then
      match e with
      | .directory _ => IO.FS.createDir (pathText l)
      | .file _ content =>
        IO.FS.writeBinFile (pathText l) ⟨#[]⟩
        IO.setAccessRights (pathText l) { user := { read := true, write := true } }
        IO.FS.writeBinFile (pathText l) ⟨content.toArray⟩
      | .link _ => pure ()

def put (b : Bytes) : IO Unit := do
  let output ← IO.getStdout
  output.write ⟨b.toArray⟩
  output.flush

/-- Works a run out with the lines read so far, and asks for at most `left` more. -/
def converse (args : List Bytes) (a : Arguments) (env : Environment) (entropy : Entropy) :
    (left shown lines : Nat) → (input : Bytes) → IO UInt32
  | left, shown, lines, input => do
    let files ← picture a env input
    let outcome := Program.run args env { files, input, entropy }
    match left, outcome.world.asked[lines]? with
    | left + 1, some upTo => do
      put ((outcome.world.output.take upTo).drop shown)
      let line ← (← IO.getStdin).getLine
      converse args a env entropy left upTo (lines + 1) (input ++ Utf8.ofString line)
    | _, _ => do
      carryOut files outcome.world.files
      put (outcome.world.output.drop shown)
      (← IO.getStderr).putStr outcome.errorText
      return UInt32.ofNat outcome.exitCode

end Keyfile.CommandLine

open Keyfile in
def main (args : List String) : IO UInt32 := do
  let args := args.map Utf8.ofString
  let env : Environment :=
    { configFile := (← IO.getEnv "DOUBLEZERO_KEYGEN_CONFIG_FILE").map Path.ofString
      home := (← IO.getEnv "HOME").map Path.ofString }
  let a := match Arguments.read args with
    | .ok (.run a) => a
    | _ => {}
  CommandLine.converse args a env (.ofBytes (← IO.getRandomBytes 32).toList) 2 0 0 []
