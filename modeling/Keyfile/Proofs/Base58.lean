import Keyfile.Keypair.Basic
import Mathlib.Data.List.TakeWhile
import Mathlib.Data.Nat.Digits.Lemmas
import Mathlib.Tactic.Common

/-!
# Base 58 read back

The numeral of a number is the list of its digits with the most significant one first, so it never
starts with the digit zero. That is why the leading zeros of a byte string can be told apart from
the rest of its written form, and why every written form is read back.
-/
namespace Keyfile

/-! ## Numerals -/

namespace Base58
variable {base : Nat}

theorem numeral_eq_digits (h : 1 < base) (n : Nat) :
    numeral base n = (Nat.digits base n).reverse := by
  induction n using Nat.strong_induction_on with
  | _ n ih =>
    by_cases hn : n = 0
    · rw [hn, numeral_zero, Nat.digits_zero, List.reverse_nil]
    · have hlt : n / base < n := Nat.div_lt_self (Nat.pos_of_ne_zero hn) h
      rw [numeral, dif_pos ⟨h, hn⟩, ih _ hlt, Nat.digits_def' h (Nat.pos_of_ne_zero hn),
        List.reverse_cons]

theorem ofNumeral_eq_ofDigits (base : Nat) (ds : List Nat) :
    ofNumeral base ds = Nat.ofDigits base ds.reverse := by
  induction ds using List.reverseRecOn with
  | nil => rfl
  | append_singleton ds d ih =>
    have hlast : ofNumeral base (ds ++ [d]) = ofNumeral base ds * base + d := by
      rw [ofNumeral, List.foldl_append]
      rfl
    rw [hlast, ih, List.reverse_append, List.reverse_singleton, List.singleton_append,
      Nat.ofDigits_cons]
    ring

theorem lt_of_mem_numeral (h : 1 < base) {n d : Nat} (hd : d ∈ numeral base n) : d < base := by
  rw [numeral_eq_digits h, List.mem_reverse] at hd
  exact Nat.digits_lt_base h hd

/-- A numeral does not start with the digit zero. -/
theorem head?_numeral_ne (h : 1 < base) (n : Nat) : (numeral base n).head? ≠ some 0 := by
  rw [numeral_eq_digits h, List.head?_reverse]
  intro hlast
  have hn : n ≠ 0 := by
    rintro rfl
    rw [Nat.digits_zero] at hlast
    cases hlast
  have hne := Nat.digits_ne_nil_iff_ne_zero (b := base).mpr hn
  rw [List.getLast?_eq_some_getLast hne, Option.some.injEq] at hlast
  exact Nat.getLast_digit_ne_zero base hn hlast

/-- Zeros in front do not matter to the number. -/
theorem ofNumeral_zeros (base count : Nat) (ds : List Nat) :
    ofNumeral base (List.replicate count 0 ++ ds) = ofNumeral base ds := by
  rw [ofNumeral_eq_ofDigits, ofNumeral_eq_ofDigits, List.reverse_append, List.reverse_replicate,
    Nat.ofDigits_append_replicate_zero]

theorem ofNumeral_numeral (h : 1 < base) (n : Nat) : ofNumeral base (numeral base n) = n := by
  rw [ofNumeral_eq_ofDigits, numeral_eq_digits h, List.reverse_reverse, Nat.ofDigits_digits]

theorem numeral_ofNumeral (h : 1 < base) {ds : List Nat} (hlt : ∀ d ∈ ds, d < base)
    (hhead : ds.head? ≠ some 0) : numeral base (ofNumeral base ds) = ds := by
  have hdigits : Nat.digits base (Nat.ofDigits base ds.reverse) = ds.reverse := by
    refine Nat.digits_ofDigits base h _ ?_ ?_
    · intro d hd
      exact hlt d (List.mem_reverse.mp hd)
    · intro hne hlast
      apply hhead
      rw [← List.getLast?_reverse, List.getLast?_eq_some_getLast hne, hlast]
  rw [numeral_eq_digits h, ofNumeral_eq_ofDigits, hdigits, List.reverse_reverse]

end Base58

/-! ## Byte strings as numerals -/

namespace Bytes

theorem bigEndian_eq_ofNumeral (b : Bytes) :
    b.bigEndian = Base58.ofNumeral 256 (b.map UInt8.toNat) := by
  rw [bigEndian, Base58.ofNumeral, List.foldl_map]

theorem map_ofNat_toNat (b : Bytes) : (b.map UInt8.toNat).map UInt8.ofNat = b := by
  simp [Function.comp_def]

end Bytes

namespace Base58

/-- The bytes behind the leading zeros. -/
def significant (b : Bytes) : Bytes := b.dropWhile (· = 0)

theorem zeros_append_significant (b : Bytes) :
    List.replicate (leadingZeros b) 0 ++ significant b = b := by
  have hzeros : b.takeWhile (· = 0) = List.replicate (leadingZeros b) 0 := by
    refine List.eq_replicate_of_mem ?_
    intro x hx
    simpa using List.mem_takeWhile_imp hx
  rw [significant, ← hzeros, List.takeWhile_append_dropWhile]

theorem head?_significant_ne (b : Bytes) :
    ((significant b).map UInt8.toNat).head? ≠ some 0 := by
  intro hhead
  rw [List.head?_map, Option.map_eq_some_iff] at hhead
  obtain ⟨x, hx, hzero⟩ := hhead
  have hnot := List.head?_dropWhile_not (fun x : UInt8 => decide (x = 0)) b
  rw [significant] at hx
  rw [hx] at hnot
  have hx0 : x = 0 := UInt8.toNat_inj.mp hzero
  simp [hx0] at hnot

theorem bigEndian_significant (b : Bytes) : b.bigEndian = (significant b).bigEndian := by
  conv_lhs => rw [← zeros_append_significant b]
  rw [Bytes.bigEndian_eq_ofNumeral, Bytes.bigEndian_eq_ofNumeral, List.map_append,
    List.map_replicate]
  exact ofNumeral_zeros 256 _ _

theorem numeral_bigEndian (b : Bytes) :
    (numeral 256 b.bigEndian).map UInt8.ofNat = significant b := by
  have hlt : ∀ d ∈ (significant b).map UInt8.toNat, d < 256 := by
    intro d hd
    obtain ⟨x, _, rfl⟩ := List.mem_map.mp hd
    exact x.toNat_lt
  rw [bigEndian_significant, Bytes.bigEndian_eq_ofNumeral,
    numeral_ofNumeral (by omega) hlt (head?_significant_ne b), Bytes.map_ofNat_toNat]

/-! ## Written forms -/

theorem value?_digit {n : Nat} (h : n < 58) : value? (digit n) = some n := by
  have hall : ∀ n : Fin 58, value? (digit n) = some n.val := by decide
  exact hall ⟨n, h⟩

theorem mapM_value?_digit {ds : List Nat} (h : ∀ d ∈ ds, d < 58) :
    (ds.map digit).mapM value? = some ds := by
  induction ds with
  | nil => rfl
  | cons d ds ih =>
    have hd := value?_digit (h d List.mem_cons_self)
    have hds := ih fun e he => h e (List.mem_cons_of_mem d he)
    rw [List.map_cons, List.mapM_cons, hd, hds]
    rfl

/-- The values of the digits of a written form. -/
def values (b : Bytes) : List Nat :=
  List.replicate (leadingZeros b) 0 ++ numeral 58 b.bigEndian

theorem encodeChars_eq_map (b : Bytes) : encodeChars b = (values b).map digit := by
  rw [encodeChars, values, List.map_append, List.map_replicate]
  rfl

theorem lt_of_mem_values {b : Bytes} {d : Nat} (h : d ∈ values b) : d < 58 := by
  rcases List.mem_append.mp h with hzero | hdigit
  · rw [List.eq_of_mem_replicate hzero]
    decide
  · exact lt_of_mem_numeral (by decide) hdigit

/-- The zeros that the digits start with are those that the bytes start with. -/
theorem takeWhile_values (b : Bytes) :
    ((values b).takeWhile (· = 0)).length = leadingZeros b := by
  have hnone : (numeral 58 b.bigEndian).takeWhile (· = 0) = [] := by
    have hhead := @head?_numeral_ne 58 (by decide) b.bigEndian
    cases hn : numeral 58 b.bigEndian with
    | nil => rfl
    | cons d ds =>
      rw [hn, List.head?_cons] at hhead
      have hd : ¬ d = 0 := by
        rintro rfl
        exact hhead rfl
      simp [hd]
  have hall : ∀ d ∈ List.replicate (leadingZeros b) 0, decide (d = 0) = true := by
    intro d hd
    exact decide_eq_true (List.eq_of_mem_replicate hd)
  rw [values, List.takeWhile_append_of_pos hall, hnone, List.append_nil, List.length_replicate]

theorem decode?_encodeChars (b : Bytes) : decode? (encodeChars b) = some b := by
  have hvalue : ofNumeral 58 (values b) = b.bigEndian := by
    rw [values, ofNumeral_zeros, ofNumeral_numeral (by decide)]
  rw [decode?, encodeChars_eq_map, mapM_value?_digit fun _ => lt_of_mem_values, Option.map_some,
    takeWhile_values, hvalue, numeral_bigEndian, zeros_append_significant]

theorem encode_injective {b b' : Bytes} (h : encode b = encode b') : b = b' := by
  have hchars : encodeChars b = encodeChars b' := String.ofList_injective h
  have hdecoded := congrArg decode? hchars
  rwa [decode?_encodeChars, decode?_encodeChars, Option.some.injEq] at hdecoded

/-! ## How long written forms are -/

/-- A smaller base takes at least as many digits. -/
theorem length_numeral_anti {base' : Nat} (h : 1 < base) (hle : base ≤ base') (n : Nat) :
    (numeral base' n).length ≤ (numeral base n).length := by
  rw [numeral_eq_digits h, numeral_eq_digits (h.trans_le hle), List.length_reverse,
    List.length_reverse, Nat.digits_length_le_iff (h.trans_le hle)]
  exact (Nat.lt_base_pow_length_digits h).trans_le (Nat.pow_le_pow_left hle _)

theorem length_numeral_le {n k : Nat} (h : 1 < base) (hn : n < base ^ k) :
    (numeral base n).length ≤ k := by
  rw [numeral_eq_digits h, List.length_reverse]
  exact (Nat.digits_length_le_iff h n).mpr hn

theorem length_significant (b : Bytes) : leadingZeros b + (significant b).length = b.length := by
  have h := congrArg List.length (zeros_append_significant b)
  rwa [List.length_append, List.length_replicate] at h

theorem length_numeral_bigEndian (b : Bytes) :
    (numeral 256 b.bigEndian).length = (significant b).length := by
  rw [← numeral_bigEndian, List.length_map]

theorem length_encodeChars (b : Bytes) :
    (encodeChars b).length = leadingZeros b + (numeral 58 b.bigEndian).length := by
  rw [encodeChars, List.length_append, List.length_replicate, List.length_map]

/-- There is at least one character for each byte. -/
theorem length_le_encodeChars (b : Bytes) : b.length ≤ (encodeChars b).length := by
  have hanti : (numeral 256 b.bigEndian).length ≤ (numeral 58 b.bigEndian).length :=
    length_numeral_anti (by decide) (by decide) b.bigEndian
  rw [length_numeral_bigEndian] at hanti
  rw [length_encodeChars, ← length_significant]
  exact Nat.add_le_add_left hanti _

/-- Powers of a larger base that are not above those of a smaller one stay so when both are divided
by the same power of their bases. -/
theorem pow_le_pow_of_add {base' k n m : Nat} (h : 0 < base) (hle : base ≤ base')
    (hpow : base' ^ (k + n) ≤ base ^ (k + m)) : base' ^ n ≤ base ^ m := by
  refine Nat.le_of_mul_le_mul_left (?_ : base ^ k * _ ≤ base ^ k * _) (Nat.pow_pos h)
  calc base ^ k * base' ^ n ≤ base' ^ k * base' ^ n :=
        Nat.mul_le_mul_right _ (Nat.pow_le_pow_left hle k)
    _ = base' ^ (k + n) := (Nat.pow_add ..).symm
    _ ≤ base ^ (k + m) := hpow
    _ = base ^ k * base ^ m := Nat.pow_add ..

/-- Where all strings of so many bytes have a numeral of so many digits, leading zeros do not make
the written form longer. -/
theorem length_encodeChars_le {b : Bytes} {m : Nat} (h : 256 ^ b.length ≤ 58 ^ m) :
    (encodeChars b).length ≤ m := by
  have hzeros : leadingZeros b ≤ m := by
    have hle : b.length ≤ m := by
      refine (Nat.pow_le_pow_iff_right (a := 58) (by decide)).mp ?_
      exact (Nat.pow_le_pow_left (by decide) _).trans h
    have := length_significant b
    omega
  obtain ⟨m, rfl⟩ := Nat.exists_eq_add_of_le hzeros
  have hlt : b.bigEndian < 256 ^ (significant b).length := by
    rw [← length_numeral_bigEndian, numeral_eq_digits (by decide), List.length_reverse]
    exact Nat.lt_base_pow_length_digits (by decide)
  have hpow : 256 ^ (significant b).length ≤ 58 ^ m := by
    rw [← length_significant] at h
    exact pow_le_pow_of_add (by decide) (by decide) h
  rw [length_encodeChars]
  exact Nat.add_le_add_left (length_numeral_le (by decide) (hlt.trans_le hpow)) _

/-! ## Backups -/

theorem digit_mem_alphabet {n : Nat} (h : n < 58) : digit n ∈ alphabet := by
  have hall : ∀ n : Fin 58, digit n ∈ alphabet := by decide
  exact hall ⟨n, h⟩

theorem mem_alphabet {b : Bytes} {c : Char} (h : c ∈ encodeChars b) : c ∈ alphabet := by
  rw [encodeChars_eq_map] at h
  obtain ⟨d, hd, rfl⟩ := List.mem_map.mp h
  exact digit_mem_alphabet (lt_of_mem_values hd)

theorem digit_eq_one_iff {n : Nat} (h : n < 58) : digit n = '1' ↔ n = 0 := by
  have hall : ∀ n : Fin 58, digit n = '1' ↔ n.val = 0 := by decide
  exact hall ⟨n, h⟩

theorem takeWhile_map_digit {ds : List Nat} (h : ∀ d ∈ ds, d < 58) :
    ((ds.map digit).takeWhile (· = '1')).length = (ds.takeWhile (· = 0)).length := by
  induction ds with
  | nil => rfl
  | cons d ds ih =>
    obtain ⟨hd, hds⟩ := List.forall_mem_cons.mp h
    rw [List.map_cons, List.takeWhile_cons, List.takeWhile_cons]
    simp only [digit_eq_one_iff hd]
    split_ifs with hzero
    · rw [List.length_cons, List.length_cons, ih hds]
    · rfl

/-- What is written uses only the alphabet, starts with as many ones as there are leading zeros and
is read back, so different bytes are written differently. For a seed it has 32 to 44 characters. -/
theorem encode_backup :
    (∀ b : Bytes, (∀ c ∈ (encode b).toList, c ∈ alphabet) ∧
      ((encode b).toList.takeWhile (· = '1')).length = (b.takeWhile (· = 0)).length ∧
      decode? (encode b).toList = some b) ∧
    Function.Injective encode ∧
    ∀ s : Seed,
      decode? (Keypair.ofSeed s).secretText.toList = some ((Keypair.ofSeed s).bytes.take 32) ∧
      32 ≤ (Keypair.ofSeed s).secretText.length ∧ (Keypair.ofSeed s).secretText.length ≤ 44 := by
  refine ⟨?_, fun _ _ => encode_injective, ?_⟩
  · intro b
    rw [encode, String.toList_ofList]
    refine ⟨fun c => mem_alphabet, ?_, decode?_encodeChars b⟩
    rw [encodeChars_eq_map, takeWhile_map_digit fun _ => lt_of_mem_values, takeWhile_values,
      leadingZeros]
  · intro s
    have htext : (Keypair.ofSeed s).secretText.toList = encodeChars s.bytes := String.toList_ofList
    have hseed : (Keypair.ofSeed s).bytes.take 32 = s.bytes := List.take_left' s.length_eq
    have hpow : 256 ^ s.bytes.length ≤ 58 ^ 44 := by
      rw [s.length_eq]
      decide
    have hlow := length_le_encodeChars s.bytes
    rw [s.length_eq] at hlow
    rw [← String.length_toList, htext, hseed]
    exact ⟨decode?_encodeChars s.bytes, hlow, length_encodeChars_le hpow⟩

end Base58

end Keyfile
