import Keyfile.Binary64.Basic

/-!
# JSON values

Numbers are integers of 64 bits, signed or unsigned, or finite floating-point numbers. An object
keeps its members in the order in which they are to be written; one that was read has them in the
order of their names, each name once.
-/
namespace Keyfile

inductive Json where
  | null
  | bool (b : Bool)
  | integer (n : Int)
  | double (x : Binary64)
  | string (s : String)
  | array (items : List Json)
  | object (members : List (String × Json))

namespace Json

/-- Adds a member where its name belongs, in place of an earlier one of that name. -/
def insert (name : String) (value : Json) : List (String × Json) → List (String × Json)
  | [] => [(name, value)]
  | (n, v) :: r =>
    if name = n then (name, value) :: r
    else if name < n then (name, value) :: (n, v) :: r
    else (n, v) :: insert name value r

/-- The members of an object written in this order: of two with one name the later counts. -/
def ofMembers (members : List (String × Json)) : Json :=
  .object (members.foldl (fun acc m => insert m.1 m.2 acc) [])

/-- The value of the last member of this name. -/
def member? (name : String) : Json → Option Json
  | .object members => members.lookup name
  | _ => none

/-- The byte a value stands for: an integer from 0 to 255. -/
def byte? : Json → Option UInt8
  | .integer n => if 0 ≤ n ∧ n < 256 then some (UInt8.ofNat n.toNat) else none
  | _ => none

end Json

end Keyfile
