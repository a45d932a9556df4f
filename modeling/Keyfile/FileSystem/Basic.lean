import Keyfile.Path

/-!
# The file tree

A location is the list of names that leads from the root to an entry, without links or dots. The
tree is a finite map from locations to entries; the root is a directory and not among them.
-/
namespace Keyfile

/-- Names from the root down. -/
abbrev Location := List Name

inductive Entry where
  | directory (mode : Nat)
  | file (mode : Nat) (content : Bytes)
  | link (target : Path)
  deriving DecidableEq

structure FileSystem where
  /-- The entries below the root. -/
  entries : List (Location × Entry)
  /-- Where relative paths start. -/
  working : Location

namespace FileSystem

/-- The entry at a location. -/
def find? (fs : FileSystem) (l : Location) : Option Entry :=
  if l = [] then some (.directory 0o755) else fs.entries.lookup l

/-- A finite map with a new value at a key: in the place of the old one, or at the end. -/
def put (l : Location) (e : Entry) : List (Location × Entry) → List (Location × Entry)
  | [] => [(l, e)]
  | (k, x) :: r => if k = l then (k, e) :: r else (k, x) :: put l e r

/-- The tree with an entry at a location other than the root. -/
def set (fs : FileSystem) (l : Location) (e : Entry) : FileSystem :=
  if l = [] then fs else { fs with entries := put l e fs.entries }

/-- The tree without the entry at a location. -/
def erase (fs : FileSystem) (l : Location) : FileSystem :=
  { fs with entries := fs.entries.filter (·.1 ≠ l) }

def isDirectoryAt (fs : FileSystem) (l : Location) : Bool :=
  match fs.find? l with
  | some (.directory _) => true
  | _ => false

/-- Every entry lies in a directory. -/
def WellFormed (fs : FileSystem) : Prop :=
  (∀ l n, (fs.find? (l ++ [n])).isSome → fs.isDirectoryAt l = true) ∧
    fs.isDirectoryAt fs.working = true

theorem lookup_put (l k : Location) (e : Entry) (m : List (Location × Entry)) :
    (put l e m).lookup k = if k = l then some e else m.lookup k := by
  induction m with
  | nil => by_cases h : k = l <;> simp [put, List.lookup_cons, h, beq_eq_false_iff_ne.2]
  | cons x r ih =>
    obtain ⟨j, x⟩ := x
    by_cases hj : j = l
    · subst hj
      by_cases h : k = j
      · simp [put, h]
      · simp [put, List.lookup_cons, h, beq_eq_false_iff_ne.2 h]
    · by_cases h : k = j
      · subst h
        simp [put, hj]
      · simp [put, List.lookup_cons, hj, ih, beq_eq_false_iff_ne.2 h]

theorem find?_set (fs : FileSystem) (l k : Location) (e : Entry) (hl : l ≠ []) :
    (fs.set l e).find? k = if k = l then some e else fs.find? k := by
  by_cases hk : k = []
  · subst hk
    simp [find?, Ne.symm hl]
  · simp [find?, set, hl, hk, lookup_put]

end FileSystem

end Keyfile
