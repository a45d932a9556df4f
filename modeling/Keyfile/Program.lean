import Keyfile.Arguments.Read
import Keyfile.Command.Generate
import Keyfile.Command.Load
import Keyfile.Config.Load

/-!
# The program

A run of the program: arguments and a world go in; texts, an exit code and the world afterwards come
out.
-/
namespace Keyfile

/-- What a run leaves behind. -/
structure Outcome where
  exitCode : Nat
  errorText : String
  world : World

namespace Program

/-- The settings for this run, which are logged. -/
def settings (asked : Option Path) (env : Environment) : Action Config := do
  let (file, config) ← Action.ofLogged (Config.load (← get).files asked env)
  match file with
  | some path => Action.log (.usingConfig path)
  | none => pure ()
  return config

/-- What the arguments ask for. Settings matter only for a new keypair. -/
def command (a : Arguments) (env : Environment) : Action Unit := do
  let output : OutputOptions := { json := a.json, jsonCompact := a.jsonCompact }
  match a.keypairFile with
  | some path => Command.load path output
  | none => do
    let config ← settings a.config env
    Command.generate { save := a.save, interactive := a.interactive } config output

/-- Runs an action to its end. -/
def perform (action : Action Unit) (w : World) : Outcome :=
  match action.run w with
  | .ok _ w => ⟨0, "", w⟩
  | .error f w => ⟨1, "Error: " ++ f.message ++ "\n", w⟩

/-- Shows a text. The run has done what was asked even if the output does not take all of it. -/
def inform (text : String) (w : World) : Outcome :=
  match (Action.print text).run w with
  | .ok _ w | .error _ w => ⟨0, "", w⟩

/-- Runs the program. -/
def run (args : List Bytes) (env : Environment) (w : World) : Outcome :=
  match Arguments.read args with
  | .error m => ⟨1, m.message, w⟩
  | .ok .help => inform helpText w
  | .ok .version => inform versionText w
  | .ok (.run a) => perform (command a env) w

end Program

end Keyfile
