import Keyfile.Keypair.Generate
import Keyfile.Proofs.Base58
import Keyfile.Proofs.Keypair.Format

/-!
# The two layouts of a keypair

A keypair is laid out as its seed alone, or as the seed with the public key behind it. Whichever
layout it is read from, and also when it is made anew from its seed, it is the same keypair.
-/
namespace Keyfile

/-! ## Sources of seeds -/

theorem Entropy.cycle_length (first : UInt8) (rest : Bytes) :
    cycle first rest (rest.length + 1) = first :: rest := by
  apply List.ext_getElem
  · simp [cycle]
  · intro i _ hi
    have hmod : i % (rest.length + 1) = i := Nat.mod_eq_of_lt hi
    simp [cycle, hmod, List.getElem?_eq_getElem hi]

/-- A source that repeats the bytes of a seed gives that seed. -/
theorem Entropy.seed?_ofBytes (s : Seed) : (Entropy.ofBytes s.bytes).seed? = .ok s := by
  obtain ⟨b, hlength⟩ := s
  cases b with
  | nil => cases hlength
  | cons first rest =>
    have hcycle := cycle_length first rest
    rw [← List.length_cons, hlength] at hcycle
    simp [ofBytes, seed?, hcycle]

/-! ## Bytes that start with a seed -/

/-- What is made of bytes behind the seed that has this public key. -/
def PublicKey.verdict (key : PublicKey) (tail : Bytes) (origin : String) :
    Except KeypairError Unit :=
  if tail.length = 0 ∨ tail.length = 32 then
    if tail.length = 32 ∧ tail ≠ key.bytes then
      .error (.invalidSecret origin key.text (Base58.encode tail))
    else .ok ()
  else .error (.invalidLength origin (32 + tail.length))

/-- The seed that the first bytes are. -/
theorem exists_seed {b : Bytes} (h : 32 ≤ b.length) : ∃ s : Seed, s.bytes = b.take 32 :=
  ⟨⟨b.take 32, List.length_take_of_le h⟩, rfl⟩

namespace Keypair
variable {s : Seed} {b : Bytes} {k : Keypair}

theorem publicKey_ofSeed (s : Seed) : (ofSeed s).publicKey = s.publicKey := rfl

theorem ofLayout_append (s : Seed) (tail : Bytes) (origin : String) :
    ofLayout (s.bytes ++ tail) origin =
      (s.publicKey.verdict tail origin).map fun _ => ofSeed s := by
  have hlength : (s.bytes ++ tail).length = 32 + tail.length := by simp [s.length_eq]
  have htake : (s.bytes ++ tail).take 32 = s.bytes := List.take_left' s.length_eq
  have hdrop : (s.bytes ++ tail).drop 32 = tail := List.drop_left' s.length_eq
  have hseed : Seed.ofBytes? s.bytes = some s := Seed.ofBytes?_eq_some_iff.mpr rfl
  have hsizes : 32 + tail.length = 32 ∨ 32 + tail.length = 64 ↔
      tail.length = 0 ∨ tail.length = 32 := by omega
  have hfull : 32 + tail.length = 64 ↔ tail.length = 32 := by omega
  unfold ofLayout PublicKey.verdict
  rw [hlength, htake, hdrop, hseed]
  simp only [hsizes, publicKey_ofSeed]
  simp only [hfull]
  split_ifs <;> rfl

theorem generate_of_ok {source : Entropy} (h : source.seed? = .ok s) :
    generate source = ⟨[.generated s.publicKey.text], .ok (ofSeed s)⟩ := by
  unfold generate
  rw [h]
  rfl

/-- What holds of a keypair that is laid out as some bytes, and how else it is made. -/
structure MadeOf (k : Keypair) (b : Bytes) : Prop where
  is_prefix : b <+: k.bytes
  length_eq : k.bytes.length = 64
  seed_eq : k.seed.bytes = b.take 32
  publicKey_eq : k.publicKey.bytes = k.bytes.drop 32
  secretText_eq : k.secretText = Base58.encode (b.take 32)
  again (origin : String) : (ofBytes k.bytes origin).result = .ok k
  delivered : (Entropy.ofBytes (b.take 32)).seed? = .ok k.seed
  generated {source : Entropy} : source.seed? = .ok k.seed → (generate source).result = .ok k

theorem laysOut_bytes (k : Keypair) : LaysOut k.bytes k.seed := by
  refine ⟨.inr (length_bytes k), List.take_left' k.seed.length_eq, ?_⟩
  intro _
  rw [← k.publicKey_eq]
  exact List.drop_left' k.seed.length_eq

/-- The bytes of a keypair start with either of its layouts. -/
theorem prefix_of_laysOut (h : LaysOut b k.seed) : b <+: k.bytes := by
  rcases h.length_eq with h32 | h64
  · have hb : b = k.seed.bytes := by rw [← h.seed_eq, List.take_of_length_le h32.le]
    rw [hb]
    exact List.prefix_append _ _
  · have hb : b = k.bytes := by
      rw [bytes, ← h.seed_eq, k.publicKey_eq, ← h.publicKey_eq h64, List.take_append_drop]
    rw [hb]

theorem madeOf_of_laysOut (h : LaysOut b k.seed) : MadeOf k b where
  is_prefix := prefix_of_laysOut h
  length_eq := length_bytes k
  seed_eq := h.seed_eq.symm
  publicKey_eq := (List.drop_left' k.seed.length_eq).symm
  secretText_eq := by rw [secretText, h.seed_eq]
  again := fun _ => ofLayout_eq_ok_iff.mpr (laysOut_bytes k)
  delivered := by
    rw [h.seed_eq]
    exact Entropy.seed?_ofBytes k.seed
  generated := by
    intro source hs
    rw [generate_of_ok hs, ofSeed_seed]

theorem exists_laysOut_iff : (∃ s, LaysOut b s) ↔
    b.length = 32 ∨
      b.length = 64 ∧ ∃ s : Seed, s.bytes = b.take 32 ∧ b.drop 32 = s.publicKey.bytes := by
  constructor
  · rintro ⟨s, h⟩
    exact h.length_eq.imp_right fun h64 => ⟨h64, s, h.seed_eq.symm, h.publicKey_eq h64⟩
  · rintro (h32 | ⟨h64, s, hs, hkey⟩)
    · obtain ⟨s, hs⟩ := exists_seed h32.ge
      exact ⟨s, .inl h32, hs.symm, fun h64 => absurd (h32.symm.trans h64) (by decide)⟩
    · exact ⟨s, .inr h64, hs.symm, fun _ => hkey⟩

/-- Of the bytes of full length that start with a seed, one layout is left. -/
theorem laysOut_iff_of_extends {s' : Seed} (h64 : b.length = 64) (hs : s.bytes <+: b) :
    LaysOut b s' ↔ s' = s ∧ b = (ofSeed s).bytes := by
  obtain ⟨tail, rfl⟩ := hs
  constructor
  · intro h
    have hseed : s' = s := by
      have hbytes := h.seed_eq
      rw [List.take_left' s.length_eq] at hbytes
      cases s
      cases s'
      cases hbytes
      rfl
    have hkey := h.publicKey_eq h64
    rw [hseed, List.drop_left' s.length_eq] at hkey
    exact ⟨hseed, congrArg (s.bytes ++ ·) hkey⟩
  · rintro ⟨rfl, hb⟩
    rw [hb]
    exact laysOut_bytes (ofSeed s')

theorem ofLayout_of_length {origin : String} (h32 : b.length ≠ 32) (h64 : b.length ≠ 64) :
    ofLayout b origin = .error (.invalidLength origin b.length) := by
  unfold ofLayout
  rw [if_neg (not_or.mpr ⟨h32, h64⟩)]

/-- Of full length, only the public key can be wrong, and then its text is. -/
theorem ofLayout_error {origin : String} {e : KeypairError} (h64 : b.length = 64)
    (h : ofLayout b origin = .error e) :
    ∃ s : Seed, s.bytes = b.take 32 ∧ s.publicKey.text ≠ Base58.encode (b.drop 32) ∧
      e = .invalidSecret origin s.publicKey.text (Base58.encode (b.drop 32)) := by
  obtain ⟨s, hs⟩ := exists_seed (b := b) (by omega)
  have hlength : (b.drop 32).length = 32 := by
    rw [List.length_drop, h64]
  rw [← List.take_append_drop 32 b, ← hs, ofLayout_append, PublicKey.verdict,
    if_pos (.inr hlength)] at h
  split_ifs at h with hkey
  · cases h
    exact ⟨s, hs, fun htext => hkey.2 (Base58.encode_injective htext).symm, rfl⟩
  · cases h

/-- Bytes are accepted exactly if they are a seed, or a seed with its public key. The keypair is
then the one that its own bytes give and the one that is made anew of the seed, and of all longer
layouts of a seed just one is accepted. Other bytes are refused for their length or for their
public key, which is then shown beside a different one. -/
theorem ofBytes_layouts (b : Bytes) (origin : String) :
    ((∃ k, (ofBytes b origin).result = .ok k) ↔ b.length = 32 ∨
      b.length = 64 ∧ ∃ s : Seed, s.bytes = b.take 32 ∧ b.drop 32 = s.publicKey.bytes) ∧
    (∀ k, (ofBytes b origin).result = .ok k → MadeOf k b) ∧
    (∀ s : Seed, (ofBytes s.bytes origin).result = .ok (ofSeed s) ∧
      (b.length = 64 → s.bytes <+: b →
        ∀ k, (ofBytes b origin).result = .ok k ↔ k = ofSeed s ∧ b = (ofSeed s).bytes)) ∧
    (b.length ≠ 32 → b.length ≠ 64 →
      (ofBytes b origin).result = .error (.invalidLength origin b.length)) ∧
    (b.length = 64 → ∀ e, (ofBytes b origin).result = .error e →
      ∃ s : Seed, s.bytes = b.take 32 ∧ s.publicKey.text ≠ Base58.encode (b.drop 32) ∧
        e = .invalidSecret origin s.publicKey.text (Base58.encode (b.drop 32))) := by
  refine ⟨?_, ?_, ?_, ofLayout_of_length, fun h64 e => ofLayout_error h64⟩
  · rw [← exists_laysOut_iff]
    constructor
    · rintro ⟨k, hk⟩
      exact ⟨k.seed, ofLayout_eq_ok_iff.mp hk⟩
    · rintro ⟨s, hs⟩
      exact ⟨ofSeed s, ofLayout_eq_ok_iff.mpr hs⟩
  · intro k hk
    exact madeOf_of_laysOut (ofLayout_eq_ok_iff.mp hk)
  · intro s
    refine ⟨?_, ?_⟩
    · refine ofLayout_eq_ok_iff.mpr ⟨.inl s.length_eq, List.take_of_length_le s.length_eq.le, ?_⟩
      intro h64
      exact absurd (s.length_eq.symm.trans h64) (by decide)
    · intro h64 hs k
      have hseed : k.seed = s ↔ k = ofSeed s := by
        constructor
        · rintro rfl
          exact (ofSeed_seed k).symm
        · rintro rfl
          rfl
      rw [← hseed]
      exact ofLayout_eq_ok_iff.trans (laysOut_iff_of_extends h64 hs)

end Keypair

end Keyfile
