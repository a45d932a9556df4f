import Keyfile.Keypair.Save

/-!
# Settings

Where a new keypair is stored when no file is named, and how keypair files are set out.
-/
namespace Keyfile

structure Config where
  defaultOutfile : Path := Path.ofString "keypair.json"
  jsonFormat : JsonFormat := .pretty
  deriving DecidableEq

end Keyfile
