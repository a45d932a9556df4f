import Keyfile.Proofs.Json.Document

/-!
# JSON arrays of bytes

`ByteText` says which texts spell an array of bytes: numerals of numbers below 256 with commas
between them, brackets around them, and white space around every token. These are the texts of the
grammar whose value is an array of bytes, so `read` gives one for them and for no others.
-/
namespace Keyfile.Json

/-- A byte with white space around it. -/
inductive ByteItem : List Char → UInt8 → Prop
  | intro {w ds w' : List Char} {b : UInt8} :
      Spaces w → Numeral ds b.toNat → Spaces w' → ByteItem (w ++ ds ++ w') b

/-- At least one byte, with commas between the bytes. -/
inductive ByteItems : List Char → Bytes → Prop
  | one {s : List Char} {b : UInt8} : ByteItem s b → ByteItems s [b]
  | cons {s t : List Char} {b : UInt8} {bs : Bytes} :
      ByteItem s b → ByteItems t bs → ByteItems (s ++ ',' :: t) (b :: bs)

/-- An array of bytes as a whole text. -/
inductive ByteText : List Char → Bytes → Prop
  | empty {w w' w'' : List Char} :
      Spaces w → Spaces w' → Spaces w'' → ByteText (w ++ '[' :: w' ++ ']' :: w'') []
  | items {w t w'' : List Char} {bs : Bytes} :
      Spaces w → ByteItems t bs → Spaces w'' → ByteText (w ++ '[' :: t ++ ']' :: w'') bs

/-- The JSON array of some bytes. -/
def ofBytes (bs : Bytes) : List Json := bs.map fun b => .integer b.toNat

theorem byte?_eq_some_iff {v : Json} {b : UInt8} : v.byte? = some b ↔ v = .integer b.toNat := by
  cases v with
  | integer n => rw [byte?_integer, integer.injEq]
  | _ => exact iff_of_false nofun nofun

variable {depth : Nat} {t text : List Char} {vs : List Json} {b : UInt8} {bs : Bytes}

/-! ## The texts of the grammar -/

theorem magnitude_integer_iff {negative : Bool} {n : Int} : Magnitude negative t (.integer n) ↔
    ∃ m, Numeral t m ∧ Fits negative m ∧ n = signed negative m := by
  constructor
  · generalize hv : Json.integer n = v
    intro h
    cases h with
    | integer hd hf =>
      cases hv
      exact ⟨_, hd, hf, rfl⟩
    | double => cases hv
  · rintro ⟨m, hd, hf, rfl⟩
    exact .integer hd hf

theorem nested_integer {n : Int} (h : Nested depth t (.integer n)) : Scalar t (.integer n) := by
  cases depth with
  | zero => exact h
  | succ depth =>
    rcases h with h | h
    · exact h
    · generalize hv : Json.integer n = v at h
      cases h <;> cases hv

/-- A byte is spelled by the numerals of its number: behind a minus there is nothing but less than
zero. -/
theorem nested_byte_iff : Nested depth t (.integer b.toNat) ↔ Numeral t b.toNat := by
  constructor
  · intro h
    have hs := nested_integer h
    generalize hv : Json.integer b.toNat = v at hs
    cases hs with
    | unsigned hm =>
      rw [← hv] at hm
      obtain ⟨m, hd, _, hn⟩ := magnitude_integer_iff.mp hm
      rw [Int.ofNat.inj hn]
      exact hd
    | negative hm =>
      rw [← hv] at hm
      obtain ⟨m, _, hf, hn⟩ := magnitude_integer_iff.mp hm
      simp only [signed, Fits, if_true] at hf hn
      omega
    | _ => cases hv
  · intro h
    have hb : b.toNat < Nat.pow 2 64 := Nat.lt_trans b.toNat_lt (by decide)
    exact Scalar.nested (.unsigned (.integer h hb)) depth

theorem byteItems_iff : ByteItems t bs ↔ Separated (Nested depth) t (ofBytes bs) := by
  constructor
  · intro h
    induction h with
    | one h =>
      obtain ⟨hw, hd, hw'⟩ := h
      exact .one hw (nested_byte_iff.mpr hd) hw'
    | cons h _ ih =>
      obtain ⟨hw, hd, hw'⟩ := h
      exact .cons hw (nested_byte_iff.mpr hd) hw' ih
  · generalize hvs : ofBytes bs = vs
    intro h
    induction h generalizing bs with
    | one hw ht hw' =>
      obtain ⟨b, bs, rfl, rfl, hbs⟩ := List.map_eq_cons_iff.mp hvs
      rw [List.map_eq_nil_iff.mp hbs]
      exact .one (.intro hw (nested_byte_iff.mp ht) hw')
    | cons hw ht hw' _ ih =>
      obtain ⟨b, bs, rfl, rfl, hbs⟩ := List.map_eq_cons_iff.mp hvs
      exact .cons (.intro hw (nested_byte_iff.mp ht) hw') (ih hbs)

/-- An array is spelled by its items between brackets. -/
theorem document_array_iff : Document text (.array vs) ↔
    ∃ w t w', Spaces w ∧ Spaces w' ∧ text = w ++ '[' :: t ++ ']' :: w' ∧
      Items (Nested 126) t vs := by
  constructor
  · generalize hv : Json.array vs = v
    rintro ⟨hw, ht, hw'⟩
    rcases ht with ht | ht
    · cases ht with
      | unsigned hm | negative hm => cases hm <;> cases hv
      | _ => cases hv
    · cases ht with
      | array ht =>
        cases hv
        refine ⟨_, _, _, hw, hw', ?_, ht⟩
        simp only [List.append_assoc, List.cons_append, List.nil_append]
      | object => cases hv
  · rintro ⟨w, t, w', hw, hw', rfl, ht⟩
    have h := Document.intro hw (.inr (.array ht)) hw'
    simpa only [List.append_assoc, List.cons_append, List.nil_append] using h

/-- The texts of bytes are the texts of the grammar whose value is an array of bytes. -/
theorem byteText_iff : ByteText text bs ↔ Document text (.array (ofBytes bs)) := by
  rw [document_array_iff]
  constructor
  · intro h
    cases h with
    | empty hw hw' hw'' => exact ⟨_, _, _, hw, hw'', rfl, .none hw'⟩
    | items hw ht hw'' => exact ⟨_, _, _, hw, hw'', rfl, .some (byteItems_iff.mp ht)⟩
  · rintro ⟨w, t, w', hw, hw', rfl, ht⟩
    generalize hvs : ofBytes bs = vs at ht
    cases ht with
    | none ht =>
      rw [List.map_eq_nil_iff.mp hvs]
      exact .empty hw ht hw'
    | some ht =>
      rw [← hvs] at ht
      exact .items hw (byteItems_iff.mpr ht) hw'

end Keyfile.Json
