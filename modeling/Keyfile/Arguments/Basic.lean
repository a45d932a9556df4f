import Keyfile.Path

/-!
# Arguments

What the command line accepts: one keypair file and a few options.
-/
namespace Keyfile

/-- What an argument on the command line can be about. -/
inductive Switch where
  | keypairFile
  | save
  | interactive
  | json
  | jsonCompact
  | config
  | help
  | version
  deriving DecidableEq

namespace Switch

/-- The switches that are given as options. -/
def options : List Switch := [save, interactive, json, jsonCompact, config, help, version]

/-- The name behind the two hyphens of an option. -/
def name : Switch → String
  | keypairFile => ""
  | save => "save"
  | interactive => "interactive"
  | json => "json"
  | jsonCompact => "json-compact"
  | config => "config"
  | help => "help"
  | version => "version"

/-- How messages show a switch. -/
def shown : Switch → String
  | keypairFile => "[KEYPAIR_FILE]"
  | save => "--save [<FILE>]"
  | config => "--config <CONFIG>"
  | s => "--" ++ s.name

/-- Whether a value may follow the option. -/
def takesValue : Switch → Bool
  | save | config => true
  | _ => false

/-- The options that belong together. -/
def groups : List (List Switch) := [[save, interactive], [json, jsonCompact]]

/-- The options that a switch belongs together with, itself included. -/
def group? (s : Switch) : Option (List Switch) := groups.find? fun g => decide (s ∈ g)

/-- The switches that a switch excludes. -/
def excludes : Switch → List Switch
  | keypairFile => [save, interactive]
  | save => [keypairFile]
  | interactive => [keypairFile, json, jsonCompact]
  | json => [interactive, jsonCompact]
  | jsonCompact => [interactive, json]
  | _ => []

theorem mem_excludes_comm (s t : Switch) : t ∈ s.excludes ↔ s ∈ t.excludes := by
  cases s <;> cases t <;> decide

end Switch

/-- The arguments of a run, once they have been read. -/
structure Arguments where
  keypairFile : Option Path := none
  /-- Asked to store the new keypair, with or without the name of a file. -/
  save : Option (Option Path) := none
  interactive : Bool := false
  json : Bool := false
  jsonCompact : Bool := false
  config : Option Path := none
  deriving DecidableEq

end Keyfile
