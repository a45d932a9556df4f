import Keyfile.Error

/-!
# Log messages

What is reported on the side while keypairs are made, read and stored. No message holds more of a
keypair than its public key.
-/
namespace Keyfile

inductive Level where
  | debug
  | info
  | warn
  deriving DecidableEq

def Level.name : Level → String
  | debug => "DEBUG"
  | info => "INFO"
  | warn => "WARN"

inductive Message where
  /-- A keypair is about to be built from this many bytes. -/
  | loadedLength (length : Nat)
  /-- A new keypair has this public key, in base 58. -/
  | generated (publicKey : String)
  | saved (path : Path)
  | noConfig (path : Path)
  | noHome
  /-- A configuration file was chosen. -/
  | usingConfig (path : Path)
  deriving DecidableEq

def Message.level : Message → Level
  | loadedLength _ => .info
  | noHome => .warn
  | _ => .debug

def Message.text : Message → String
  | loadedLength n => "Loaded seed bytes length: " ++ toString n
  | generated key => "Generated keypair " ++ key
  | saved path => "Keypair saved to: " ++ path.display
  | noConfig path => "No keygen config at " ++ path.display ++ ", using defaults"
  | noHome => "Unable to locate home directory, using default keygen config"
  | usingConfig path => "using keygen config: " ++ path.display

/-- A message with its level in front. -/
def Message.line (m : Message) : String := m.level.name ++ " " ++ m.text

/-- A result with the messages that were logged on the way to it. -/
structure Logged (α : Type) where
  messages : List Message
  result : Except KeypairError α

end Keyfile
