import Keyfile.Keypair.Basic
import Keyfile.Log

/-!
# New keypairs

The seed of a new keypair is what a random source gives for 32 bytes.
-/
namespace Keyfile

/-- A source of random bytes: a pattern that each reading takes from its start and repeats as often
as needed, or the reason why nothing can be read. -/
inductive Entropy where
  | pattern (first : UInt8) (rest : Bytes)
  | unavailable (reason : String)

namespace Entropy

/-- The source that repeats these bytes; without any it gives zeros. -/
def ofBytes : Bytes → Entropy
  | [] => .pattern 0 []
  | a :: r => .pattern a r

/-- The first `n` bytes of a pattern repeated without end. -/
def cycle (first : UInt8) (rest : Bytes) (n : Nat) : Bytes :=
  (List.range n).map fun i => (first :: rest).getD (i % (rest.length + 1)) first

/-- A seed from the source. -/
def seed? : Entropy → Except String Seed
  | .unavailable reason => .error reason
  | .pattern first rest => .ok ⟨cycle first rest 32, by simp [cycle]⟩

end Entropy

/-- A new keypair; its public key is logged. -/
def Keypair.generate (source : Entropy) : Logged Keypair :=
  match source.seed? with
  | .error reason => ⟨[], .error (.randomSource reason)⟩
  | .ok s =>
    let k := ofSeed s
    ⟨[.generated k.publicKey.text], .ok k⟩

end Keyfile
