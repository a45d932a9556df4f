import Keyfile.Keypair.Load
import Keyfile.Keypair.Save
import Keyfile.Proofs.Json.ByteArray

/-!
# The format of keypair files

A text is a keypair file exactly when it spells 32 bytes, or 64 bytes of which the second half is
the public key of the first. What is stored for some bytes spells these bytes in either layout.
-/
namespace Keyfile
open Json

/-! ## Stored texts -/

theorem numeral_integerText (b : UInt8) : Numeral (integerText b.toNat) b.toNat := by
  have h : integerText b.toNat = Nat.toDigits 10 b.toNat := Nat.toList_repr
  rw [h]
  exact numeral_toDigits b.toNat

/-- A stored number is a byte without white space. -/
theorem byteItem_integerText (b : UInt8) : ByteItem (integerText b.toNat) b := by
  have h := ByteItem.intro spaces_nil (numeral_integerText b) spaces_nil
  rwa [List.nil_append, List.append_nil] at h

theorem byteItems_compact (b : UInt8) (bs : Bytes) :
    ByteItems (compactItems (ofBytes (b :: bs))) (b :: bs) := by
  induction bs generalizing b with
  | nil =>
    simpa only [ofBytes, List.map_cons, List.map_nil, compactItems, compactChars, scalarText]
      using ByteItems.one (byteItem_integerText b)
  | cons b' bs ih =>
    simpa only [ofBytes, List.map_cons, compactItems, compactChars, scalarText]
      using ByteItems.cons (byteItem_integerText b) (ih b')

theorem spaces_newLine (depth : Nat) : Spaces (newLine depth) := by
  intro c hc
  rcases List.mem_cons.mp hc with rfl | hc
  · rfl
  · rw [List.eq_of_mem_replicate hc]
    rfl

theorem byteItems_indented (depth : Nat) {w w' : List Char} (hw : Spaces w) (hw' : Spaces w')
    (b : UInt8) (bs : Bytes) :
    ByteItems (w ++ indentedItems depth (ofBytes (b :: bs)) ++ w') (b :: bs) := by
  induction bs generalizing b w with
  | nil =>
    simpa only [ofBytes, List.map_cons, List.map_nil, indentedItems, indentedChars, scalarText]
      using ByteItems.one (.intro hw (numeral_integerText b) hw')
  | cons b' bs ih =>
    have h := ByteItems.cons (.intro hw (numeral_integerText b) spaces_nil)
      (ih (spaces_newLine depth) b')
    simpa only [ofBytes, List.map_cons, indentedItems, indentedChars, scalarText,
      List.append_assoc, List.cons_append, List.nil_append] using h

/-- What is stored for some bytes spells them, in either layout. -/
theorem byteText_arrayText (f : JsonFormat) (bs : Bytes) :
    ByteText (f.arrayText bs).toList bs := by
  cases f with
  | compact =>
    rw [JsonFormat.arrayText, JsonFormat.render, compact, String.toList_ofList, compactChars]
    cases bs with
    | nil => exact .empty spaces_nil spaces_nil spaces_nil
    | cons b bs => exact .items spaces_nil (byteItems_compact b bs) spaces_nil
  | pretty =>
    rw [JsonFormat.arrayText, JsonFormat.render, indented, String.toList_ofList]
    cases bs with
    | nil =>
      rw [List.map_nil, indentedChars]
      exact .empty spaces_nil spaces_nil spaces_nil
    | cons b bs =>
      have h := ByteText.items spaces_nil
        (byteItems_indented 1 (spaces_newLine 1) (spaces_newLine 0) b bs) spaces_nil
      simpa only [ofBytes, List.map_cons, indentedChars, List.append_assoc, List.cons_append,
        List.nil_append] using h

/-! ## Texts that are read -/

theorem bytesOrBad_eq_ok_iff {i : Nat} {items : List Json} {bs : Bytes} :
    bytesOrBad i items = .ok bs ↔ items = ofBytes bs := by
  induction items generalizing i bs with
  | nil =>
    rw [bytesOrBad, Except.ok.injEq, eq_comm, eq_comm (a := []), ofBytes, List.map_eq_nil_iff]
  | cons v items ih =>
    rw [bytesOrBad, eq_comm (a := v :: items), ofBytes, List.map_eq_cons_iff]
    cases hv : v.byte? with
    | none =>
      refine iff_of_false nofun ?_
      rintro ⟨b, bs, _, rfl, _⟩
      rw [byte?_eq_some_iff.mpr rfl] at hv
      cases hv
    | some b =>
      rw [map_eq_ok_iff]
      obtain rfl := byte?_eq_some_iff.mp hv
      constructor
      · rintro ⟨bs', h, rfl⟩
        exact ⟨b, bs', rfl, rfl, (ih.mp h).symm⟩
      · rintro ⟨b', bs', rfl, hb, h⟩
        rw [integer.injEq, Int.ofNat_inj, UInt8.toNat_inj] at hb
        exact ⟨bs', ih.mpr h.symm, by rw [hb]⟩

/-- Bytes are read from the texts that spell them and from no others. -/
theorem readByteArray_eq_ok_iff {text : List Char} {origin : String} {bs : Bytes} :
    readByteArray text origin = .ok bs ↔ ByteText text bs := by
  rw [byteText_iff, ← read_eq_ok_iff]
  unfold readByteArray
  constructor
  · intro h
    split at h
    · cases h
    · rename_i items hread
      split at h
      · rename_i hb
        cases h
        rw [hread, bytesOrBad_eq_ok_iff.mp hb]
      · cases h
    · cases h
  · intro h
    rw [h]
    dsimp only
    rw [bytesOrBad_eq_ok_iff.mpr rfl]

/-! ## Keypairs that are laid out -/

/-- Bytes that a keypair file may spell for a seed: the seed alone, or the seed and its public
key. -/
structure LaysOut (b : Bytes) (s : Seed) : Prop where
  length_eq : b.length = 32 ∨ b.length = 64
  seed_eq : b.take 32 = s.bytes
  publicKey_eq : b.length = 64 → b.drop 32 = s.publicKey.bytes

theorem Seed.ofBytes?_eq_some_iff {b : Bytes} {s : Seed} :
    Seed.ofBytes? b = some s ↔ b = s.bytes := by
  unfold Seed.ofBytes?
  constructor
  · intro h
    split_ifs at h
    cases h
    rfl
  · rintro rfl
    rw [dif_pos s.length_eq]

namespace Keypair

theorem ofLayout_eq_ok_iff {b : Bytes} {origin : String} {k : Keypair} :
    ofLayout b origin = .ok k ↔ LaysOut b k.seed := by
  unfold ofLayout
  constructor
  · intro h
    split_ifs at h with hlen
    split at h
    · cases h
    · rename_i s hs
      dsimp only at h
      split_ifs at h with hk
      cases h
      refine ⟨hlen, Seed.ofBytes?_eq_some_iff.mp hs, ?_⟩
      intro h64
      by_contra hne
      exact hk ⟨h64, hne⟩
  · rintro ⟨hlen, hseed, hkey⟩
    have hk : ¬ (b.length = 64 ∧ b.drop 32 ≠ (ofSeed k.seed).publicKey.bytes) := by
      rintro ⟨h64, hne⟩
      exact hne (hkey h64)
    rw [if_pos hlen, Seed.ofBytes?_eq_some_iff.mpr hseed]
    dsimp only
    rw [if_neg hk, ofSeed_seed]

theorem bytes_injective {k k' : Keypair} (h : k.bytes = k'.bytes) : k = k' := by
  have hs : k.seed.bytes = k'.seed.bytes :=
    (List.append_inj h (k.seed.length_eq.trans k'.seed.length_eq.symm)).1
  have hseed : k.seed = k'.seed := by
    cases hk : k.seed
    cases hk' : k'.seed
    rw [hk, hk'] at hs
    simpa using hs
  rw [← ofSeed_seed k, ← ofSeed_seed k', hseed]

theorem ofText_result (text : List Char) (origin : String) :
    (ofText text origin).result = readByteArray text origin >>= fun b => ofLayout b origin := by
  unfold ofText
  cases readByteArray text origin <;> rfl

/-- A text is accepted exactly when it spells the bytes of a seed or of a seed with its public key;
the keypair then has the bytes of both. Every other text is refused. -/
theorem ofText_eq_ok_iff (text : List Char) (origin : String) :
    (∀ k, (ofText text origin).result = .ok k ↔
        ∃ b s, ByteText text b ∧ LaysOut b s ∧ k.bytes = s.bytes ++ s.publicKey.bytes) ∧
      ((¬ ∃ b s, ByteText text b ∧ LaysOut b s) →
        ∃ e, (ofText text origin).result = .error e) := by
  have accepted (k : Keypair) : (ofText text origin).result = .ok k ↔
      ∃ b s, ByteText text b ∧ LaysOut b s ∧ k.bytes = s.bytes ++ s.publicKey.bytes := by
    rw [ofText_result, bind_eq_ok_iff]
    constructor
    · rintro ⟨b, hb, hk⟩
      refine ⟨b, k.seed, readByteArray_eq_ok_iff.mp hb, ofLayout_eq_ok_iff.mp hk, ?_⟩
      rw [bytes, k.publicKey_eq]
    · rintro ⟨b, s, hb, hs, hk⟩
      have he : k = ofSeed s := bytes_injective hk
      rw [he]
      exact ⟨b, readByteArray_eq_ok_iff.mpr hb, ofLayout_eq_ok_iff.mpr hs⟩
  refine ⟨accepted, ?_⟩
  intro h
  cases hr : (ofText text origin).result with
  | error e => exact ⟨e, rfl⟩
  | ok k =>
    obtain ⟨b, s, hb, hs, _⟩ := (accepted k).mp hr
    exact (h ⟨b, s, hb, hs⟩).elim

end Keypair

end Keyfile
