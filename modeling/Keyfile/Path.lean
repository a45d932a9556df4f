import Keyfile.Text.Utf8

/-!
# Paths

A path is a byte string; names are separated by slashes. Empty names and the name `.` mean nothing
except where a path starts with them.
-/
namespace Keyfile

abbrev Path := Bytes

abbrev Name := Bytes

namespace Path

def slash : UInt8 := 0x2F

/-- The name of the directory itself. -/
def dot : Name := [0x2E]

/-- The name of the directory above. -/
def dotDot : Name := [0x2E, 0x2E]

/-- The path of a text. -/
def ofString (s : String) : Path := Utf8.ofString s

/-- A path as it is shown: each ill-formed stretch of bytes becomes U+FFFD. -/
def display (p : Path) : String := Utf8.lossy p

/-- The parts of a path between its slashes, the empty ones included. -/
def segments : Path → List Name
  | [] => [[]]
  | c :: r =>
    if c = slash then [] :: segments r
    else
      match segments r with
      | s :: ss => (c :: s) :: ss
      | [] => [[c]]

/-- The parts of a path between its slashes that are not empty. -/
def names (p : Path) : List Name := p.segments.filter (· ≠ [])

/-- Whether a path starts at the root. -/
def isAbsolute (p : Path) : Bool := p.head? = some slash

/-- Whether a path ends in a slash, so that only a directory can be meant. -/
def endsInSlash (p : Path) : Bool := p.getLast? = some slash

/-- Names with slashes between them. -/
def ofSegments : List Name → Path
  | [] => []
  | [s] => s
  | s :: t :: r => s ++ slash :: ofSegments (t :: r)

/-- The part of a path that stays when names are taken off its end: a slash at its start, or a
name `.` at its start. -/
def anchor (p : Path) : Path :=
  match p with
  | c :: r =>
    if c = slash then [slash]
    else if [c] = dot ∧ (r = [] ∨ r.head? = some slash) then dot
    else []
  | [] => []

/-- Segments without those at the end that mean nothing. -/
def dropIdle (ss : List Name) : List Name :=
  (ss.reverse.dropWhile fun s => s = [] ∨ s = dot).reverse

/-- The path without its last name. The root and the empty path have no parent; the parent of a
single name is the empty path. -/
def parent? (p : Path) : Option Path :=
  let anchor := p.anchor
  match dropIdle (segments (p.drop anchor.length)) with
  | [] => if anchor = dot then some [] else none
  | ss => some (anchor ++ ofSegments (dropIdle ss.dropLast))

/-- A path followed by its parents, as far as they name something: the root and the empty path are
left out. At most `fuel` paths are given. -/
def ancestorsUpTo : (fuel : Nat) → Path → List Path
  | 0, _ => []
  | fuel + 1, p =>
    match p.parent? with
    | none => []
    | some q => p :: ancestorsUpTo fuel q

def ancestors (p : Path) : List Path := ancestorsUpTo p.length p

/-- A name inside the directory that a path names. -/
def push (p : Path) (n : Name) : Path :=
  if p = [] ∨ p.endsInSlash then p ++ n else p ++ slash :: n

end Path

end Keyfile
