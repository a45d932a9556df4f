import Keyfile.Report
import Keyfile.Session

/-!
# Showing the keypair of a file
-/
namespace Keyfile.Command

/-- Shows the keypair of the file. -/
def load (path : Path) (output : OutputOptions) : Action Unit := do
  if !output.isJson then
    Action.print ("=== Loading Keypair from File: " ++ path.display ++ " ===\n")
  let k ← Action.loadKeypair path
  let report := Report.ofKeypair k
  Action.printAll (report.lines output)
  Action.printAll (report.document? output).toList

end Keyfile.Command
