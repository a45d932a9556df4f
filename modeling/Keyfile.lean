import Keyfile.Bytes
import Keyfile.Text.Utf8
import Keyfile.Text.Blank
import Keyfile.Base58
import Keyfile.Ed25519
import Keyfile.Binary64.Shortest
import Keyfile.Json.Printer
import Keyfile.Json.Fault
import Keyfile.Json.Reader
import Keyfile.FileSystem.Operations
import Keyfile.Keypair.Load
import Keyfile.Keypair.Save
import Keyfile.Keypair.Generate
import Keyfile.Command.Load
import Keyfile.Command.Generate
import Keyfile.Yaml.Fault
import Keyfile.Yaml.Token.Basic
import Keyfile.Yaml.Token.Scalar
import Keyfile.Yaml.Token.Directive
import Keyfile.Yaml.Token.Scan
import Keyfile.Yaml.Event
import Keyfile.Yaml.Value
import Keyfile.Config.Text
import Keyfile.Config.Load
import Keyfile.Arguments.Read
import Keyfile.Program
import Keyfile.Main
import Keyfile.Proofs.Result
import Keyfile.Proofs.Text.Utf8
import Keyfile.Proofs.Json.Numeral
import Keyfile.Proofs.Json.Grammar
import Keyfile.Proofs.Json.Magnitude
import Keyfile.Proofs.Json.ByteArray
import Keyfile.Proofs.Keypair.Format
import Keyfile.Proofs.FileSystem.Change
import Keyfile.Proofs.Keypair.Store
import Keyfile.Proofs.Command.Effect
import Keyfile.Proofs.Command.Shown
import Keyfile.Proofs.History
import Keyfile.Proofs.Command.Choice
import Keyfile.Proofs.Command.Room
import Keyfile.Proofs.Program.Run
import Keyfile.Proofs.Program.ExitCode
import Keyfile.Proofs.Arguments
import Keyfile.Proofs.Json.Object
import Keyfile.Proofs.Program.Document
import Keyfile.Proofs.Program.Loading
import Keyfile.Proofs.FileSystem.Ancestors
import Keyfile.Proofs.Keypair.ArrayText
import Keyfile.Proofs.Keypair.Saved
import Keyfile.Proofs.Program.Sequence
import Keyfile.Proofs.Arguments.Spelled
import Keyfile.Proofs.Program.Gate
import Keyfile.Proofs.Keypair.SharedKey
import Keyfile.Proofs.Command.Secrecy
import Keyfile.Proofs.Keypair.Layouts
import Keyfile.Proofs.Keypair.Refusal
import Keyfile.Proofs.Report
import Keyfile.Proofs.FileSystem.Follow
import Keyfile.Proofs.Keypair.Reading
import Keyfile.Proofs.Keypair.Steps
import Keyfile.Proofs.Command.Dialogue
import Keyfile.Proofs.Keypair.Repeat
import Keyfile.Proofs.Config.Source
import Keyfile.Proofs.Keypair.Element
import Keyfile.Proofs.Config.Lines
import Keyfile.Proofs.Program.Variants
import Keyfile.Proofs.Command.Lines
import Keyfile.Proofs.Keypair.Parents
