import Keyfile.Keypair.Save

/-!
# Reports on a keypair

A report is shown either as lines of text or as one JSON document, never as both.
-/
namespace Keyfile

/-- What is shown of a keypair. -/
structure Report where
  publicKey : PublicKey
  secretText : String
  /-- Where the keypair was stored, if it was. -/
  savedTo : Option String := none
  deriving DecidableEq

/-- The report on a keypair that has not been stored. -/
def Report.ofKeypair (k : Keypair) : Report :=
  { publicKey := k.publicKey, secretText := k.secretText }

/-- How reports are asked for; with both flags set the first one counts. -/
structure OutputOptions where
  json : Bool := false
  jsonCompact : Bool := false
  deriving DecidableEq

namespace OutputOptions

def isJson (o : OutputOptions) : Bool := o.json || o.jsonCompact

/-- The layout of the JSON document, if there is to be one. -/
def format? (o : OutputOptions) : Option JsonFormat :=
  if o.json then some .pretty else if o.jsonCompact then some .compact else none

end OutputOptions

namespace Report

/-- The members of the JSON document. -/
def members (r : Report) : List (String × Json) :=
  [("pubkey", .string r.publicKey.text), ("secret_base58", .string r.secretText)] ++
    match r.savedTo with
    | some path => [("saved_to", .string path)]
    | none => []

/-- The lines shown when no JSON is asked for. -/
def lines (r : Report) (o : OutputOptions) : List String :=
  if o.isJson then []
  else
    ["Public Key: " ++ r.publicKey.text ++ "\n", "Base58 Secret Key: " ++ r.secretText ++ "\n"]

/-- The document shown when JSON is asked for. -/
def document? (r : Report) (o : OutputOptions) : Option String :=
  o.format?.map fun f => f.render (.object r.members) ++ "\n"

end Report

end Keyfile
