import Keyfile.Ed25519
import Mathlib

/-!
# Seeds that share a public key

Five bits of the number that a seed is turned into are fixed, so there are fewer public keys than
seeds: some two seeds have the same one.
-/
namespace Keyfile

theorem Bytes.littleEndian_ofNatLittle (size n : Nat) :
    littleEndian (ofNatLittle size n) = n % 256 ^ size := by
  induction size generalizing n with
  | zero => simp [ofNatLittle, littleEndian, Nat.mod_one]
  | succ k ih =>
    have hbyte : (UInt8.ofNat (n % 256)).toNat = n % 256 := by simp
    rw [ofNatLittle, littleEndian, ih, hbyte, pow_succ', Nat.mod_mul]

namespace Ed25519

/-- The bits of a digest that count for the multiplier. -/
def kept (digest : Bytes) : Nat := Bytes.littleEndian (digest.take 32) % 2 ^ 254 / 8

theorem kept_lt (digest : Bytes) : kept digest < 2 ^ 251 := by
  have hmod : Bytes.littleEndian (digest.take 32) % 2 ^ 254 < 2 ^ 251 * 8 :=
    Nat.mod_lt _ (by norm_num)
  exact Nat.div_lt_of_lt_mul (by omega)

theorem scalar_eq (digest : Bytes) : scalar digest = 2 ^ 254 + 8 * kept digest := by
  have hclear (n : Nat) : n - n % 8 = 8 * (n / 8) := by omega
  unfold scalar kept
  dsimp only
  rw [hclear]
  rfl

end Ed25519

/-- The seed that is written like a number. -/
def Seed.ofNat (n : Nat) : Seed := ⟨Bytes.ofNatLittle 32 n, Bytes.length_ofNatLittle 32 n⟩

theorem Seed.ofNat_injective {m n : Nat} (hm : m < 256 ^ 32) (hn : n < 256 ^ 32)
    (h : Seed.ofNat m = Seed.ofNat n) : m = n := by
  have hbytes : Bytes.ofNatLittle 32 m = Bytes.ofNatLittle 32 n := congrArg Seed.bytes h
  have hvalue := congrArg Bytes.littleEndian hbytes
  rw [Bytes.littleEndian_ofNatLittle, Bytes.littleEndian_ofNatLittle] at hvalue
  rwa [Nat.mod_eq_of_lt hm, Nat.mod_eq_of_lt hn] at hvalue

theorem Seed.publicKey_eq_of_kept {s t : Seed}
    (h : Ed25519.kept (Sha512.digest s.bytes) = Ed25519.kept (Sha512.digest t.bytes)) :
    s.publicKey = t.publicKey := by
  unfold publicKey
  simp only [Ed25519.scalar_eq, h]

theorem exists_shared_publicKey : ∃ s t : Seed, s ≠ t ∧ s.publicKey = t.publicKey := by
  let kept (n : Fin (256 ^ 32)) : Fin (2 ^ 251) :=
    ⟨Ed25519.kept (Sha512.digest (Seed.ofNat n).bytes), Ed25519.kept_lt _⟩
  have hcard : Fintype.card (Fin (2 ^ 251)) < Fintype.card (Fin (256 ^ 32)) := by
    rw [Fintype.card_fin, Fintype.card_fin]
    norm_num
  obtain ⟨m, n, hne, hkept⟩ := Fintype.exists_ne_map_eq_of_card_lt kept hcard
  refine ⟨Seed.ofNat m, Seed.ofNat n, ?_, ?_⟩
  · intro hseeds
    exact hne (Fin.ext (Seed.ofNat_injective m.isLt n.isLt hseeds))
  · exact Seed.publicKey_eq_of_kept (congrArg Fin.val hkept)

end Keyfile
