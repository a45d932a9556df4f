import Keyfile.Path

/-!
# Errors about keypairs

Each way in which making, reading or storing a keypair can fail. Paths are kept as they were given
and shown only in the message.
-/
namespace Keyfile

inductive KeypairError where
  /-- The keypair file does not exist. -/
  | fileNotFound (path : Path)
  /-- The keypair file exists but cannot be read. -/
  | fileRead (path : Path) (reason : String)
  /-- The text is not JSON, or not an array of bytes. -/
  | malformedInput (origin reason : String)
  /-- There are neither 32 nor 64 bytes. -/
  | invalidLength (origin : String) (length : Nat)
  /-- The public half does not belong to the secret half; both keys are given in base 58. -/
  | invalidSecret (origin expected found : String)
  /-- The system random source gives nothing. -/
  | randomSource (reason : String)
  /-- The keypair file cannot be written. -/
  | writeFailure (path : Path) (reason : String)
  /-- The configuration file cannot be read. -/
  | config (path : Path) (reason : String)
  deriving DecidableEq

def KeypairError.message : KeypairError → String
  | fileNotFound path => "Keypair file not found: " ++ path.display
  | fileRead path reason =>
    "Failed to read keypair file '" ++ path.display ++ "': " ++ reason
  | malformedInput origin reason =>
    "Invalid keypair JSON format from " ++ origin ++ ": " ++ reason
  | invalidLength origin length =>
    "Invalid keypair bytes from " ++ origin ++ ": expected 32 or 64 bytes, got " ++
      toString length
  | invalidSecret origin expected found =>
    "Invalid keypair bytes from " ++ origin ++ ": public key " ++ found ++
      " does not match secret key (expected " ++ expected ++ ")"
  | randomSource reason => "Failed to read from the system random source: " ++ reason
  | writeFailure path reason =>
    "Failed to write keypair file '" ++ path.display ++ "': " ++ reason
  | config path reason => "Invalid keygen config '" ++ path.display ++ "': " ++ reason

end Keyfile
