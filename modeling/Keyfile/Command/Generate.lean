import Keyfile.Config.Basic
import Keyfile.Report
import Keyfile.Session

/-!
# Making a keypair

The new keypair is shown, and stored if a file is named or the user agrees to store it. In text
mode the keys are shown before anything is stored; a JSON document comes last.
-/
namespace Keyfile

/-- What is to become of a new keypair. -/
structure GenerateOptions where
  /-- Asked to store the keypair, with or without the name of a file. -/
  save : Option (Option Path) := none
  /-- Asked to find out whether to store it, which counts when `save` is not given. -/
  interactive : Bool := false
  deriving DecidableEq

namespace Command

/-- Whether an answer agrees: `y` or `yes` in any mixture of cases. -/
def agrees (answer : List Char) : Bool :=
  let lower := answer.map Char.toLower
  lower = ['y'] || lower = ['y', 'e', 's']

/-- Asks whether to store the keypair, and where. -/
def askDestination (config : Config) : Action (Option Path) := do
  Action.print "\n"
  Action.print "Do you want to save this keypair to a file? (y/n): "
  if !agrees (← Action.readAnswer) then return none
  Action.print ("Enter filename (default: " ++ config.defaultOutfile.display ++ "): ")
  let name ← Action.readAnswer
  return some (if name.isEmpty then config.defaultOutfile else Utf8.encode name)

/-- Where the keypair is to be stored, if anywhere. -/
def destination (options : GenerateOptions) (config : Config) : Action (Option Path) :=
  match options.save with
  | some file => return some (file.getD config.defaultOutfile)
  | none => if options.interactive then askDestination config else return none

/-- Makes a keypair, shows it, and stores it where it is to be stored. -/
def generate (options : GenerateOptions) (config : Config) (output : OutputOptions) :
    Action Unit := do
  if !output.isJson then Action.print "=== Creating New Keypair ===\n"
  let k ← Action.generateKeypair
  let report := Report.ofKeypair k
  Action.printAll (report.lines output)
  match ← destination options config with
  | none => Action.printAll (report.document? output).toList
  | some path =>
    Action.saveBytes k.bytes path config.jsonFormat
    if !output.isJson then Action.print ("Keypair saved to: " ++ path.display ++ "\n")
    Action.printAll ({ report with savedTo := some path.display }.document? output).toList

end Command

end Keyfile
