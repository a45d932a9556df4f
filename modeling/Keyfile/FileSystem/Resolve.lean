import Keyfile.FileSystem.Access
import Keyfile.FileSystem.Basic

/-!
# Finding what a path names

A path is followed name by name from the root or the working directory. Links on the way are
followed, forty at most. `Ending` says what becomes of the last name.
-/
namespace Keyfile

/-- How the last name of a path is taken. -/
inductive Ending where
  /-- A link is followed. -/
  | follow
  /-- A link is not followed. -/
  | keep
  /-- A link is followed and a file is to be opened or made, so no slash may come last. -/
  | create
  deriving DecidableEq

/-- What a path leads to. -/
inductive Spot where
  | found (location : Location)
  /-- Nothing of this name in an existing directory. -/
  | vacant (directory : Location) (name : Name)
  deriving DecidableEq

namespace FileSystem

/-- Where the names of a path start. -/
def start (here : Location) (p : Path) : Location := if p.isAbsolute then [] else here

/-- Follows names from a directory; `slash` tells that a slash follows the last one. -/
def walk (fs : FileSystem) (ending : Ending) :
    (links : Nat) → (here : Location) → List Name → (slash : Bool) → Except AccessError Spot
  | _, here, [], _ => .ok (.found here)
  | links, here, n :: rest, slash =>
    if n = Path.dot then walk fs ending links here rest slash
    else if n = Path.dotDot then walk fs ending links here.dropLast rest slash
    else if rest = [] ∧ slash ∧ ending = .create then .error .isDirectory
    else if 255 < n.length then .error .nameTooLong
    else
      match fs.find? (here ++ [n]) with
      | none => if rest = [] then .ok (.vacant here n) else .error .notFound
      | some (.directory _) => walk fs ending links (here ++ [n]) rest slash
      | some (.file _ _) =>
        if rest = [] ∧ (!slash ∨ ending = .keep) then .ok (.found (here ++ [n]))
        else .error .notDirectory
      | some (.link target) =>
        if rest = [] ∧ ending = .keep then .ok (.found (here ++ [n]))
        else
          match links with
          | 0 => .error .tooManyLinks
          | links + 1 =>
            walk fs ending links (start here target) (target.names ++ rest)
              (slash || (rest.isEmpty && target.endsInSlash))
termination_by links _ names _ => (links, names.length)

/-- How many links one path may lead through. -/
def linkLimit : Nat := 40

/-- What a path leads to from the working directory. -/
def resolve (fs : FileSystem) (ending : Ending) (p : Path) : Except AccessError Spot :=
  if 0 ∈ p then .error .zeroByte
  else if p = [] then .error .notFound
  else if 4096 ≤ p.length then .error .nameTooLong
  else fs.walk ending linkLimit (start fs.working p) p.names p.endsInSlash

end FileSystem

end Keyfile
