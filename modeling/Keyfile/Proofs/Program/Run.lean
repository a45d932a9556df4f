import Keyfile.Proofs.Command.Choice
import Keyfile.Proofs.History

/-!
# Runs of the program

`Course` holds the ways in which a command can end when there is room for all output: a keypair is
loaded, the settings cannot be read, or a keypair is made. Only a run that makes a keypair can
change the store, and it succeeds exactly if that keypair can be stored where it is to be stored.
-/
namespace Keyfile

/-- What the arguments say about a new keypair. -/
def Arguments.options (a : Arguments) : GenerateOptions :=
  { save := a.save, interactive := a.interactive }

/-- How the arguments ask for reports. -/
def Arguments.output (a : Arguments) : OutputOptions :=
  { json := a.json, jsonCompact := a.jsonCompact }

namespace Program
open Keyfile.Action

/-- What shows of an action that ends like this. -/
def outcome (r : Except Failure Unit) (w : World) : Outcome :=
  match r with
  | .ok _ => ⟨0, "", w⟩
  | .error f => ⟨1, "Error: " ++ f.message ++ "\n", w⟩

@[simp] theorem world_outcome (r : Except Failure Unit) (w : World) : (outcome r w).world = w := by
  cases r <;> rfl

theorem exitCode_outcome_eq_zero_iff {r : Except Failure Unit} {w : World} :
    (outcome r w).exitCode = 0 ↔ r = .ok () := by
  cases r with
  | ok _ => exact iff_of_true rfl rfl
  | error f => exact iff_of_false nofun nofun

theorem perform_eq (action : Action Unit) (w : World) :
    perform action w = outcome (action.result w) (action.after w) := by
  unfold perform result after
  cases action.run w <;> rfl

/-! ## Settings -/

/-- The messages about settings, which tell the file that they come from. -/
def settingsMessages (fs : FileSystem) (asked : Option Path) (env : Environment) :
    List Message :=
  (Config.load fs asked env).messages ++
    match (Config.load fs asked env).result with
    | .ok (some path, _) => [.usingConfig path]
    | _ => []

theorem savedPaths_settingsMessages (fs : FileSystem) (asked : Option Path) (env : Environment) :
    savedPaths (settingsMessages fs asked env) = [] := by
  unfold settingsMessages
  rw [savedPaths_append, Config.savedPaths_load]
  split <;> rfl

/-- Settings are read from the files, and that is logged. -/
theorem settings_run (asked : Option Path) (env : Environment) (w : World) :
    (settings asked env).run w =
      match (Config.load w.files asked env).result with
      | .ok (_, config) => .ok config (w.logged (settingsMessages w.files asked env))
      | .error e => .error (.keypair e) (w.logged (settingsMessages w.files asked env)) := by
  have hload := ofLogged_run (Config.load w.files asked env) w
  change (ofLogged (Config.load w.files asked env) >>= _).run w = _
  rw [EStateM.run_bind, hload]
  unfold settingsMessages
  cases (Config.load w.files asked env).result with
  | error e => rw [List.append_nil]
  | ok loaded =>
    obtain ⟨_ | path, config⟩ := loaded
    · rw [List.append_nil]
      rfl
    · rw [← World.logged_logged]
      rfl

/-- The arguments ask for a new keypair, and these are the settings for it. -/
structure Makes (a : Arguments) (env : Environment) (w : World) (config : Config) : Prop where
  file_eq : a.keypairFile = none
  settings_eq : ∃ file, (Config.load w.files a.config env).result = .ok (file, config)

/-- The ways in which a command can end when there is room for all output. -/
inductive Course (a : Arguments) (env : Environment) (w : World) :
    Except Failure Unit → World → Prop
  | loads {p : Path} : a.keypairFile = some p →
      Course a env w ((Command.load p a.output).result w) ((Command.load p a.output).after w)
  | unset {e : KeypairError} : a.keypairFile = none →
      (Config.load w.files a.config env).result = .error e →
      Course a env w (.error (.keypair e)) (w.logged (settingsMessages w.files a.config env))
  | makes {config : Config} {r : Except Failure Unit} {w' : World} : Makes a env w config →
      Command.Ends a.options config a.output w r w' → Course a env w r w'

section
variable {args : List Bytes} {a : Arguments} {env : Environment} {w w' : World} {config : Config}
  {p : Path} {r : Except Failure Unit}

theorem command_of_file (h : a.keypairFile = some p) :
    command a env = Command.load p a.output := by
  unfold command
  rw [h]
  rfl

theorem command_of_no_file (h : a.keypairFile = none) : command a env =
    settings a.config env >>= fun config => Command.generate a.options config a.output := by
  unfold command
  rw [h]
  rfl

theorem command_course (a : Arguments) (env : Environment) (h : w.room = none) :
    Course a env w ((command a env).result w) ((command a env).after w) := by
  cases hfile : a.keypairFile with
  | some p =>
    rw [command_of_file hfile]
    exact .loads hfile
  | none =>
    have hsettings := settings_run a.config env w
    rw [command_of_no_file hfile]
    cases hconfig : (Config.load w.files a.config env).result with
    | error e =>
      rw [hconfig] at hsettings
      obtain ⟨hr, ha⟩ := run_eq_error_iff.mp hsettings
      rw [result_bind_of_error hr, after_bind_of_error hr, ha]
      exact .unset hfile hconfig
    | ok loaded =>
      obtain ⟨file, config⟩ := loaded
      rw [hconfig] at hsettings
      obtain ⟨hr, ha⟩ := run_eq_ok_iff.mp hsettings
      rw [result_bind_of_ok hr, after_bind_of_ok hr, ha]
      -- the keypair is made in the world in which the settings have been logged
      have hends := @Command.generate_ends
        (w.logged (settingsMessages w.files a.config env)) a.options config a.output h
      exact .makes ⟨hfile, file, hconfig⟩ (hends.of_logged (savedPaths_settingsMessages _ _ _))

/-- A command that is to make a keypair goes that way, with the settings in force. -/
theorem Course.ends (h : Course a env w r w') (hm : Makes a env w config) :
    Command.Ends a.options config a.output w r w' := by
  obtain ⟨_, hsettings⟩ := hm.settings_eq
  cases h with
  | loads hfile =>
    rw [hm.file_eq] at hfile
    cases hfile
  | unset _ hconfig =>
    rw [hsettings] at hconfig
    cases hconfig
  | makes hm' hends =>
    obtain ⟨_, hsettings'⟩ := hm'.settings_eq
    rw [hsettings] at hsettings'
    cases hsettings'
    exact hends

/-! ## Runs -/

theorem run_eq_outcome (env : Environment) (w : World)
    (hread : Arguments.read args = .ok (.run a)) :
    run args env w = outcome ((command a env).result w) ((command a env).after w) := by
  unfold run
  rw [hread]
  exact perform_eq _ _

/-- The run is to make a keypair, with these settings, and to store it there. -/
def Chooses (args : List Bytes) (env : Environment) (w : World) (config : Config) (p : Path) :
    Prop :=
  ∃ a, Arguments.read args = .ok (.run a) ∧ Makes a env w config ∧
    (Command.choice a.options config w.input).result = .ok (some p)

theorem Chooses.ends (hp : Chooses args env w config p) (h : w.room = none) :
    ∃ (a : Arguments) (r : Except Failure Unit) (w' : World), run args env w = outcome r w' ∧
      Command.Ends a.options config a.output w r w' ∧
      (Command.choice a.options config w.input).result = .ok (some p) := by
  obtain ⟨a, hread, hm, hc⟩ := hp
  exact ⟨a, _, _, run_eq_outcome env w hread, (command_course a env h).ends hm, hc⟩

/-- With a seed and a destination, a run succeeds exactly if its keypair can be stored there. -/
theorem Chooses.exitCode_eq_zero_iff {s : Seed} (hp : Chooses args env w config p)
    (h : w.room = none) (hs : w.entropy.seed? = .ok s) : (run args env w).exitCode = 0 ↔
      (save w.files (Keypair.ofSeed s).bytes p config.jsonFormat).2.result = .ok () := by
  obtain ⟨a, r, w', ho, hends, hc⟩ := hp.ends h
  rw [ho, exitCode_outcome_eq_zero_iff]
  exact hends.eq_ok_iff hs hc

end

end Program

end Keyfile
