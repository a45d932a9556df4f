import Keyfile.Config.Text
import Keyfile.FileSystem.Operations
import Keyfile.Log

/-!
# Where settings come from

The configuration file is the one that was asked for, or else the one that the environment names,
or else the usual one below the home directory. Where there is no such file, the standard settings
hold.
-/
namespace Keyfile

/-- What the environment says about files. -/
structure Environment where
  /-- The configuration file that is named there; an empty name counts. -/
  configFile : Option Path := none
  /-- The home directory; an empty name does not count. -/
  home : Option Path := none

namespace Config

/-- The way from the home directory to the configuration file. -/
def usualNames : List Name :=
  [".config", "doublezero", "keygen", "config.yml"].map Utf8.ofString

/-- The configuration file below a home directory. -/
def usualFile (home : Path) : Path := usualNames.foldl Path.push home

/-- The configuration file in question. -/
def location (asked : Option Path) (env : Environment) : Option Path :=
  asked <|> env.configFile <|> (env.home.filter (· ≠ [])).map usualFile

/-- The settings in force and the file in question, if there is one. -/
def load (fs : FileSystem) (asked : Option Path) (env : Environment) :
    Logged (Option Path × Config) :=
  match location asked env with
  | none => ⟨[.noHome], .ok (none, {})⟩
  | some path =>
    match fs.readText path with
    | .error .notFound => ⟨[.noConfig path], .ok (some path, {})⟩
    | .error e => ⟨[], .error (.config path e.message)⟩
    | .ok text =>
      match ofText text with
      | .ok config => ⟨[], .ok (some path, config)⟩
      | .error fault => ⟨[], .error (.config path fault.message)⟩

end Config

end Keyfile
