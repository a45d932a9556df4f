import Keyfile.Arguments.Basic
import Keyfile.Text.Terminal

/-!
# How to use the program

The texts that explain the command line, and what is said when it is misused.
-/
namespace Keyfile

def programName : String := "doublezero-keygen"

def programVersion : String := "0.17.0"

/-- The line that shows how the program is called, with a keypair file if one is in use. -/
def usageLine (options : List String) (used : List Switch) : String :=
  "Usage: " ++ programName ++ String.join (options.map (" " ++ ·)) ++
    (if .keypairFile ∈ used then " <KEYPAIR_FILE>" else " [KEYPAIR_FILE]")

/-- The usage line with the options in use. -/
def usage (used : List Switch) : String :=
  let options := used.eraseDups.filter (· ≠ .keypairFile)
  usageLine (if used.isEmpty then ["[OPTIONS]"] else options.map Switch.shown) used

/-- The usage line for an option behind those in use. A group of options stands for its members,
once one of them is in use, and comes behind the other options. -/
def usageInGroups (used : List Switch) (s : Switch) : String :=
  let groups := (used.filterMap Switch.group?).eraseDups
  let alone := (used ++ [s]).eraseDups.filter fun t =>
    t ≠ .keypairFile && groups.all fun g => decide (t ∉ g)
  let shownGroup (g : List Switch) := "<" ++ "|".intercalate (g.map Switch.shown) ++ ">"
  usageLine (alone.map Switch.shown ++ groups.map shownGroup) used

def helpText : String :=
  "Create a new DoubleZero account keypair or inspect an existing one\n\n" ++ usage [] ++ "\n\n" ++
  "Arguments:\n" ++
  "  [KEYPAIR_FILE]  Keypair file to load: a JSON array of 32 (seed) or 64 (keypair) bytes\n\n" ++
  "Options:\n" ++
  "      --save [<FILE>]    Save the new keypair to FILE (defaults to the configured outfile, " ++
  "keypair.json)\n" ++
  "      --interactive      Ask whether to save the new keypair, and where (ignored with " ++
  "--save)\n" ++
  "      --json             Output as pretty JSON\n" ++
  "      --json-compact     Output as compact JSON\n" ++
  "      --config <CONFIG>  Path to the keygen config file\n" ++
  "  -h, --help             Print help\n" ++
  "  -V, --version          Print version\n\n" ++
  "Examples:\n" ++
  "  doublezero-keygen                    Create new keypair\n" ++
  "  doublezero-keygen --save id.json     Create new keypair and save it to id.json\n" ++
  "  doublezero-keygen <keypair.json>     Load keypair from file\n"

def versionText : String := programName ++ " " ++ programVersion ++ "\n"

/-- What may have been meant by an unexpected argument. -/
inductive Tip where
  | similar (s : Switch)
  /-- It was meant as a value although it looks like an option. -/
  | value
  deriving DecidableEq

/-- Why arguments are refused. Where a usage line is shown, the switches in use belong to it. -/
inductive Misuse where
  | unexpected (arg : String) (tip : Option Tip) (used : List Switch)
  | unexpectedValue (value : String) (s : Switch) (used : List Switch)
  | missingValue (s : Switch)
  | repeated (s : Switch)
  | excluded (s : Switch) (others used : List Switch)
  deriving DecidableEq

namespace Misuse

def inQuotes (s : String) : String := "'" ++ s ++ "'"

def tipText (arg : String) : Option Tip → String
  | none => ""
  | some (.similar s) => "  tip: a similar argument exists: " ++ inQuotes ("--" ++ s.name) ++ "\n\n"
  | some .value =>
    "  tip: to pass " ++ inQuotes arg ++ " as a value, use " ++ inQuotes ("-- " ++ arg) ++ "\n\n"

/-- What is wrong, and the usage line if one is shown. Of typed text only the visible part is. -/
def body : Misuse → String
  | unexpected arg tip used =>
    let arg := Terminal.visible arg
    "unexpected argument " ++ inQuotes arg ++ " found\n\n" ++ tipText arg tip ++ usage used
  | unexpectedValue value s used =>
    "unexpected value " ++ inQuotes (Terminal.visible value) ++ " for " ++ inQuotes s.shown ++
      " found; no more were expected\n\n" ++ usageInGroups used s
  | missingValue s => "a value is required for " ++ inQuotes s.shown ++ " but none was supplied"
  | repeated s =>
    "the argument " ++ inQuotes s.shown ++ " cannot be used multiple times\n\n" ++ usage []
  | excluded s [other] used =>
    "the argument " ++ inQuotes s.shown ++ " cannot be used with " ++ inQuotes other.shown ++
      "\n\n" ++ usage used
  | excluded s others used =>
    "the argument " ++ inQuotes s.shown ++ " cannot be used with:\n" ++
      String.join (others.map fun t => "  " ++ t.shown ++ "\n") ++ "\n" ++ usage used

def message (m : Misuse) : String :=
  "error: " ++ m.body ++ "\n\nFor more information, try '--help'.\n"

end Misuse

end Keyfile
