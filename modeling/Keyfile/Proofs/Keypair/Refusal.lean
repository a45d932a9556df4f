import Keyfile.Proofs.Keypair.Layouts
import Keyfile.Proofs.Keypair.Store

/-!
# Why a text is refused as a keypair

There are three reasons, and the first that holds is given: the text is malformed, it spells a wrong
number of bytes, or the public key among the bytes is not the one of the seed. The number of bytes
is logged in all cases but the first.
-/
namespace Keyfile
open Json

variable {text : List Char} {origin : String} {b : Bytes} {e : KeypairError}

/-- A text that spells no bytes: it is no JSON document, its value is no array, or an item of the
array is no byte. -/
inductive Malformed (text : List Char) : Prop
  | noDocument : (∀ v, ¬ Document text v) → Malformed text
  | noArray {v : Json} : Document text v → (∀ items, v ≠ .array items) → Malformed text
  | noByte {items : List Json} {v : Json} :
      Document text (.array items) → v ∈ items → (∀ b : UInt8, v ≠ .integer b.toNat) →
      Malformed text

/-! ## Malformed texts -/

theorem Malformed.not_byteText (h : Malformed text) : ¬ ByteText text b := by
  intro hb
  rw [byteText_iff] at hb
  cases h with
  | noDocument hno => exact hno _ hb
  | noArray hv hno => exact hno _ (hv.unique hb)
  | noByte hv hmem hno =>
    cases hv.unique hb
    obtain ⟨x, _, rfl⟩ := List.mem_map.mp hmem
    exact hno x rfl

theorem bytesOrBad_error {i : Nat} {items : List Json} {p : Nat × Json}
    (h : bytesOrBad i items = .error p) : p.2 ∈ items ∧ ∀ b : UInt8, p.2 ≠ .integer b.toNat := by
  induction items generalizing i with
  | nil => cases h
  | cons v items ih =>
    rw [bytesOrBad] at h
    cases hv : v.byte? with
    | none =>
      rw [hv] at h
      cases h
      refine ⟨List.mem_cons_self, ?_⟩
      intro b hb
      rw [byte?_eq_some_iff.mpr hb] at hv
      cases hv
    | some b =>
      rw [hv] at h
      dsimp only at h
      cases hr : bytesOrBad (i + 1) items with
      | ok bs =>
        rw [hr] at h
        cases h
      | error q =>
        rw [hr] at h
        cases h
        exact (ih hr).imp_left (List.mem_cons_of_mem v)

theorem readByteArray_error (h : readByteArray text origin = .error e) :
    Malformed text ∧ ∃ reason, e = .malformedInput origin reason := by
  unfold readByteArray at h
  split at h
  · rename_i f hread
    cases h
    refine ⟨.noDocument ?_, _, rfl⟩
    intro v hv
    rw [read_eq_ok_iff.mpr hv] at hread
    cases hread
  · rename_i items hread
    split at h
    · cases h
    · rename_i i v hbad
      cases h
      obtain ⟨hmem, hno⟩ := bytesOrBad_error hbad
      exact ⟨.noByte (read_eq_ok_iff.mp hread) hmem hno, _, rfl⟩
  · rename_i v hno hread
    cases h
    exact ⟨.noArray (read_eq_ok_iff.mp hread) hno, _, rfl⟩

/-- A text spells bytes, or it is malformed. -/
theorem Malformed.or_byteText (text : List Char) : Malformed text ∨ ∃ b, ByteText text b := by
  cases h : readByteArray text "" with
  | error e => exact .inl (readByteArray_error h).1
  | ok b => exact .inr ⟨b, readByteArray_eq_ok_iff.mp h⟩

theorem Malformed.readByteArray_eq (h : Malformed text) (origin : String) :
    ∃ reason, readByteArray text origin = .error (.malformedInput origin reason) := by
  cases hr : readByteArray text origin with
  | error e =>
    obtain ⟨_, reason, rfl⟩ := readByteArray_error hr
    exact ⟨reason, rfl⟩
  | ok b => exact (h.not_byteText (readByteArray_eq_ok_iff.mp hr)).elim

namespace Keypair

theorem ofText_of_malformed (h : Malformed text) (origin : String) :
    ∃ reason, ofText text origin = ⟨[], .error (.malformedInput origin reason)⟩ := by
  obtain ⟨reason, hr⟩ := h.readByteArray_eq origin
  refine ⟨reason, ?_⟩
  unfold ofText
  rw [hr]

/-! ## Bytes that are no keypair -/

theorem ofLayout_eq_error_iff : ofLayout b origin = .error e ↔
    b.length ≠ 32 ∧ b.length ≠ 64 ∧ e = .invalidLength origin b.length ∨
      ∃ s : Seed, b.length = 64 ∧ s.bytes = b.take 32 ∧ b.drop 32 ≠ s.publicKey.bytes ∧
        e = .invalidSecret origin s.publicKey.text (Base58.encode (b.drop 32)) := by
  constructor
  · intro h
    by_cases h64 : b.length = 64
    · obtain ⟨s, hs, hkey, he⟩ := ofLayout_error h64 h
      refine .inr ⟨s, h64, hs, ?_, he⟩
      intro heq
      exact hkey (congrArg Base58.encode heq).symm
    · by_cases h32 : b.length = 32
      · obtain ⟨s, hs⟩ := exists_laysOut_iff.mpr (.inl h32)
        have hok : ofLayout b origin = .ok (ofSeed s) := ofLayout_eq_ok_iff.mpr hs
        rw [hok] at h
        cases h
      · rw [ofLayout_of_length h32 h64] at h
        cases h
        exact .inl ⟨h32, h64, rfl⟩
  · rintro (⟨h32, h64, rfl⟩ | ⟨s, h64, hs, hkey, rfl⟩)
    · exact ofLayout_of_length h32 h64
    · have hlength : (b.drop 32).length = 32 := by rw [List.length_drop, h64]
      have hlayout := ofLayout_append s (b.drop 32) origin
      rw [hs, List.take_append_drop] at hlayout
      rw [hlayout, PublicKey.verdict, if_pos (.inr hlength), if_pos ⟨hlength, hkey⟩]
      rfl

theorem ofText_error (h : (ofText text origin).result = .error e) :
    (∃ reason, e = .malformedInput origin reason) ∨ (∃ n, e = .invalidLength origin n) ∨
      ∃ expected found, e = .invalidSecret origin expected found := by
  obtain hm | ⟨b, hb⟩ := Malformed.or_byteText text
  · obtain ⟨reason, hr⟩ := ofText_of_malformed hm origin
    rw [hr] at h
    cases h
    exact .inl ⟨reason, rfl⟩
  · rw [ofText_eq_ofBytes hb] at h
    obtain ⟨_, _, rfl⟩ | ⟨s, _, _, _, rfl⟩ := ofLayout_eq_error_iff.mp h
    · exact .inr (.inl ⟨_, rfl⟩)
    · exact .inr (.inr ⟨_, _, rfl⟩)

/-- Errors of the other kinds come from the bytes that a text spells. -/
theorem ofText_eq_error_iff (he : ∀ reason, e ≠ .malformedInput origin reason) :
    (ofText text origin).result = .error e ↔
      ∃ b, ByteText text b ∧ ofLayout b origin = .error e := by
  rw [ofText_result]
  constructor
  · intro h
    cases hr : readByteArray text origin with
    | error e' =>
      rw [hr] at h
      cases h
      obtain ⟨_, reason, rfl⟩ := readByteArray_error hr
      exact (he reason rfl).elim
    | ok b =>
      rw [hr] at h
      exact ⟨b, readByteArray_eq_ok_iff.mp hr, h⟩
  · rintro ⟨b, hb, h⟩
    rw [readByteArray_eq_ok_iff.mpr hb]
    exact h

theorem ofText_malformed_iff :
    (∃ reason, (ofText text origin).result = .error (.malformedInput origin reason)) ↔
      Malformed text := by
  constructor
  · rintro ⟨reason, h⟩
    obtain hm | ⟨b, hb⟩ := Malformed.or_byteText text
    · exact hm
    · rw [ofText_eq_ofBytes hb] at h
      obtain ⟨_, _, he⟩ | ⟨_, _, _, _, he⟩ := ofLayout_eq_error_iff.mp h
      · cases he
      · cases he
  · intro hm
    obtain ⟨reason, h⟩ := ofText_of_malformed hm origin
    exact ⟨reason, by rw [h]⟩

theorem line_loadedLength (n : Nat) :
    (Message.loadedLength n).line = "INFO Loaded seed bytes length: " ++ toString n := by
  have hlead : "INFO" ++ " " ++ "Loaded seed bytes length: " =
      "INFO Loaded seed bytes length: " := by decide
  rw [← hlead, String.append_assoc]
  rfl

/-- Every refusal is for one of the three reasons, and it names where the text came from. The reason
is a wrong number of bytes, or a wrong public key, only if the text spells such bytes. -/
theorem ofText_classified (text : List Char) (origin : String) :
    (∀ e, (ofText text origin).result = .error e →
      (∃ reason, e = .malformedInput origin reason) ∨ (∃ n, e = .invalidLength origin n) ∨
        ∃ expected found, e = .invalidSecret origin expected found) ∧
    ((∃ reason, (ofText text origin).result = .error (.malformedInput origin reason)) ↔
      Malformed text) ∧
    (∀ n, (ofText text origin).result = .error (.invalidLength origin n) ↔
      ∃ b, ByteText text b ∧ b.length = n ∧ n ≠ 32 ∧ n ≠ 64) ∧
    (∀ expected found, (ofText text origin).result = .error (.invalidSecret origin expected found) ↔
      ∃ b, ∃ s : Seed, ByteText text b ∧ b.length = 64 ∧ s.bytes = b.take 32 ∧
        b.drop 32 ≠ s.publicKey.bytes ∧ expected = s.publicKey.text ∧
        found = Base58.encode (b.drop 32)) ∧
    (∀ b, ByteText text b → (ofText text origin).messages.map Message.line =
      ["INFO Loaded seed bytes length: " ++ toString b.length]) ∧
    (Malformed text → (ofText text origin).messages = []) := by
  refine ⟨fun e => ofText_error, ofText_malformed_iff, ?_, ?_, ?_, ?_⟩
  · intro n
    have hkind (reason : String) :
        KeypairError.invalidLength origin n ≠ .malformedInput origin reason := by
      intro he
      cases he
    rw [ofText_eq_error_iff hkind]
    refine exists_congr fun b => and_congr_right fun _ => ?_
    rw [ofLayout_eq_error_iff]
    constructor
    · rintro (⟨h32, h64, he⟩ | ⟨_, _, _, _, he⟩)
      · cases he
        exact ⟨rfl, h32, h64⟩
      · cases he
    · rintro ⟨rfl, h32, h64⟩
      exact .inl ⟨h32, h64, rfl⟩
  · intro expected found
    have hkind (reason : String) :
        KeypairError.invalidSecret origin expected found ≠ .malformedInput origin reason := by
      intro he
      cases he
    rw [ofText_eq_error_iff hkind]
    constructor
    · rintro ⟨b, hb, h⟩
      obtain ⟨_, _, he⟩ | ⟨s, h64, hs, hkey, he⟩ := ofLayout_eq_error_iff.mp h
      · cases he
      · rw [KeypairError.invalidSecret.injEq] at he
        exact ⟨b, s, hb, h64, hs, hkey, he.2.1, he.2.2⟩
    · rintro ⟨b, s, hb, h64, hs, hkey, rfl, rfl⟩
      exact ⟨b, hb, ofLayout_eq_error_iff.mpr (.inr ⟨s, h64, hs, hkey, rfl⟩)⟩
  · intro b hb
    have hmessages : (ofText text origin).messages = [.loadedLength b.length] := by
      rw [ofText_eq_ofBytes hb, ofBytes]
    rw [hmessages, List.map_singleton, line_loadedLength]
  · intro hm
    obtain ⟨reason, h⟩ := ofText_of_malformed hm origin
    rw [h]

end Keypair

end Keyfile
