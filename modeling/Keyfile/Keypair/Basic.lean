import Keyfile.Base58
import Keyfile.Ed25519

/-!
# Keypairs

A keypair is a seed with the public key that belongs to it. It is written as 64 bytes, the seed
first. Both halves are shown in base 58; a keypair shown for diagnosis names its public key only.
-/
namespace Keyfile

/-- The base-58 text of a public key. -/
def PublicKey.text (k : PublicKey) : String := Base58.encode k.bytes

structure Keypair where
  seed : Seed
  publicKey : PublicKey
  publicKey_eq : publicKey = seed.publicKey

namespace Keypair

def ofSeed (s : Seed) : Keypair := ⟨s, s.publicKey, rfl⟩

/-- The 64 bytes of a keypair file. -/
def bytes (k : Keypair) : Bytes := k.seed.bytes ++ k.publicKey.bytes

/-- The base-58 text of the seed. -/
def secretText (k : Keypair) : String := Base58.encode k.seed.bytes

/-- The diagnostic text of a keypair. -/
def describe (k : Keypair) : String :=
  "KeypairMaterial \x7b pubkey: " ++ k.publicKey.text ++ ", .. \x7d"

theorem length_bytes (k : Keypair) : k.bytes.length = 64 := by
  simp [bytes, k.seed.length_eq, k.publicKey.length_eq]

theorem ofSeed_seed (k : Keypair) : ofSeed k.seed = k := by
  obtain ⟨s, p, rfl⟩ := k
  rfl

end Keypair

end Keyfile
