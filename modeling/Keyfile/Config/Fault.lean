import Keyfile.Yaml.Document
import Keyfile.Yaml.Value

/-!
# Faults in settings

What can be wrong with the text of a configuration file: the text itself, or what it says.
-/
namespace Keyfile.Config

inductive Field where
  | defaultOutfile
  | jsonFormat
  deriving DecidableEq

def Field.name : Field → String
  | defaultOutfile => "default_outfile"
  | jsonFormat => "json_format"

/-- What stands in a document. -/
inductive Found where
  | value (v : Yaml.Value)
  | sequence
  | mapping

def Found.describe : Found → String
  | value v => v.describe
  | sequence => "sequence"
  | mapping => "map"

/-- What should stand there. -/
inductive Expected where
  | settings
  | fieldName
  | path
  | tag
  | unit
  | null
  | bool
  | integer
  | float

def Expected.describe : Expected → String
  | settings => "struct KeygenConfig"
  | fieldName => "field identifier"
  | path => "path string"
  | tag => "a YAML tag starting with '!'"
  | unit => "unit"
  | null => "null"
  | bool => "a boolean"
  | integer => "an integer"
  | float => "a float"

inductive Cause where
  | wrongKind (found : Found) (expected : Expected)
  /-- The kind is right, but the text does not spell a value of it. -/
  | wrongValue (text : List Char) (expected : Expected)
  | unknownFormat (name : List Char)
  | duplicate (field : Field)

def Cause.message : Cause → String
  | wrongKind found expected =>
    "invalid type: " ++ found.describe ++ ", expected " ++ expected.describe
  | wrongValue text expected =>
    "invalid value: " ++ (Yaml.Value.text text).describe ++ ", expected " ++ expected.describe
  | unknownFormat name =>
    "unknown variant \x60" ++ String.ofList name ++
      "\x60, expected \x60pretty\x60 or \x60compact\x60"
  | duplicate field => "duplicate field \x60" ++ field.name ++ "\x60"

inductive Fault where
  | document (fault : Yaml.Document.Fault)
  | ended
  | manyDocuments
  /-- Something wrong at a position, perhaps in the value of a key. -/
  | content (cause : Cause) (mark : Yaml.Mark) (key : Option (List Char))

/-- A position, left out at the very start of the text. -/
def place (m : Yaml.Mark) : String := if m.isStart then "" else " at " ++ m.text

def Fault.message : Fault → String
  | document (.text fault) => fault.message
  | document (.unknownAnchor mark) => "unknown anchor" ++ place mark
  | ended => "EOF while parsing a value"
  | manyDocuments => "deserializing from YAML containing more than one document is not supported"
  | content cause mark none => cause.message ++ place mark
  | content cause mark (some key) => String.ofList key ++ ": " ++ cause.message ++ place mark

end Keyfile.Config
