import Keyfile.Yaml.Mark

/-!
# Tokens

The tokens of a YAML text. Besides what is written, they tell where block collections start and
end by indentation, and mark keys whose colon comes only later.
-/
namespace Keyfile.Yaml

inductive Style where
  | plain
  | singleQuoted
  | doubleQuoted
  | literal
  | folded
  deriving DecidableEq

inductive Token.Kind where
  | streamStart
  | streamEnd
  | versionDirective (major minor : Nat)
  | tagDirective (handle uri : Bytes)
  | documentStart
  | documentEnd
  | blockSequenceStart
  | blockMappingStart
  | blockEnd
  | flowSequenceStart
  | flowSequenceEnd
  | flowMappingStart
  | flowMappingEnd
  | blockEntry
  | flowEntry
  | key
  | value
  | aliasOf (name : List Char)
  | anchor (name : List Char)
  | tag (handle suffix : Bytes)
  | scalar (text : List Char) (style : Style)
  deriving DecidableEq

structure Token where
  kind : Token.Kind
  start : Mark
  stop : Mark
  deriving DecidableEq

end Keyfile.Yaml
