import Keyfile.Json.Number
import Mathlib.Tactic.Common

/-!
# Numerals in JSON text

A numeral is the decimal text of a natural number: digits without a sign, a fraction or an exponent,
and no zero in front of other digits. Reading gathers the digits of a numeral one by one, as long as
their value keeps to 64 bits.
-/
namespace Keyfile.Json

/-- A decimal numeral and the number it denotes. -/
structure Numeral (s : List Char) (n : Nat) : Prop where
  ne_nil : s ≠ []
  digits : ∀ c ∈ s, c.isDigit = true
  /-- Only the numeral of zero starts with a zero. -/
  leading : s.head? = some '0' → s = ['0']
  value_eq : Nat.ofDigitChars 10 s 0 = n

theorem head?_toDigits_ne {n : Nat} (h : n ≠ 0) : (Nat.toDigits 10 n).head? ≠ some '0' := by
  induction n using Nat.base_induction 10 (by omega) with
  | single m hm =>
    rw [Nat.toDigits_of_lt_base hm, List.head?_cons, ne_eq, Option.some.injEq,
      Nat.digitChar_eq_zero]
    exact h
  | digit m k hk hm ih =>
    have ⟨c, r, hc⟩ := List.exists_cons_of_ne_nil (Nat.toDigits_ne_nil (b := 10) (n := m))
    have hne := ih (by omega)
    rw [hc, List.head?_cons] at hne
    rw [← Nat.toDigits_append_toDigits (by omega) hm hk, hc, List.cons_append, List.head?_cons]
    exact hne

/-- Every number has a numeral. -/
theorem numeral_toDigits (n : Nat) : Numeral (Nat.toDigits 10 n) n where
  ne_nil := Nat.toDigits_ne_nil
  digits := fun _ hc => Nat.isDigit_of_mem_toDigits (by omega) (by omega) hc
  leading := by
    intro h
    by_cases hn : n = 0
    · rw [hn, Nat.toDigits_zero]
    · exact absurd h (head?_toDigits_ne hn)
  value_eq := Nat.ofDigitChars_ten_toDigits

theorem digit?_eq (c : Char) :
    digit? c = if c.isDigit then some (c.toNat - '0'.toNat) else none := by
  have h : ('0' ≤ c ∧ c ≤ '9') ↔ c.isDigit = true := by
    rw [Char.isDigit_iff_toNat]
    exact Iff.rfl
  simp only [digit?, h]

theorem digit?_isSome (c : Char) : (digit? c).isSome = c.isDigit := by
  rw [digit?_eq]
  split_ifs with h
  · rw [h, Option.isSome_some]
  · rw [Bool.not_eq_true] at h
    rw [h, Option.isSome_none]

theorem startsWithDigit_cons (c : Char) (r : List Char) : startsWithDigit (c :: r) = c.isDigit :=
  digit?_isSome c

/-! ## Gathering digits -/

theorem le_ofDigitChars (ds : List Char) (n : Nat) : n ≤ Nat.ofDigitChars 10 ds n := by
  induction ds generalizing n with
  | nil => exact Nat.le_of_eq Nat.ofDigitChars_nil.symm
  | cons c ds ih =>
    rw [Nat.ofDigitChars_cons]
    have h := ih (10 * n + (c.toNat - '0'.toNat))
    omega

/-- What `gather` takes is a run of digits, and it answers with their value. -/
theorem gather_eq {n m k : Nat} {s rest : List Char} (h : gather n s = (m, k, rest)) :
    ∃ ds, s = ds ++ rest ∧ (∀ c ∈ ds, c.isDigit = true) ∧ Nat.ofDigitChars 10 ds n = m := by
  induction s generalizing n m k with
  | nil =>
    simp only [gather, Prod.mk.injEq] at h
    obtain ⟨rfl, rfl, rfl⟩ := h
    exact ⟨[], rfl, by simp, Nat.ofDigitChars_nil⟩
  | cons c s ih =>
    have stop (h : (n, 0, c :: s) = (m, k, rest)) :
        ∃ ds, c :: s = ds ++ rest ∧ (∀ c ∈ ds, c.isDigit = true) ∧
          Nat.ofDigitChars 10 ds n = m := by
      simp only [Prod.mk.injEq] at h
      obtain ⟨rfl, rfl, rfl⟩ := h
      exact ⟨[], rfl, by simp, Nat.ofDigitChars_nil⟩
    rw [gather, digit?_eq] at h
    by_cases hc : c.isDigit = true
    · rw [if_pos hc] at h
      dsimp only at h
      split_ifs at h with hn
      · rcases hg : gather (n * 10 + (c.toNat - '0'.toNat)) s with ⟨m', k', r'⟩
        rw [hg] at h
        simp only [Prod.mk.injEq] at h
        obtain ⟨rfl, rfl, rfl⟩ := h
        obtain ⟨ds, rfl, hd, hv⟩ := ih hg
        refine ⟨c :: ds, rfl, ?_, ?_⟩
        · exact List.forall_mem_cons.mpr ⟨hc, hd⟩
        · rw [Nat.ofDigitChars_cons, Nat.mul_comm, hv]
      · exact stop h
    · rw [if_neg hc] at h
      exact stop h

/-- All digits in front of something else are gathered while their value is below 2^64. -/
theorem gather_append {n : Nat} {ds rest : List Char} (hd : ∀ c ∈ ds, c.isDigit = true)
    (hn : Nat.ofDigitChars 10 ds n < Nat.pow 2 64) (hr : startsWithDigit rest = false) :
    gather n (ds ++ rest) = (Nat.ofDigitChars 10 ds n, ds.length, rest) := by
  induction ds generalizing n with
  | nil =>
    cases rest with
    | nil => simp only [gather, Nat.ofDigitChars_nil, List.nil_append, List.length_nil]
    | cons c r =>
      rw [startsWithDigit_cons] at hr
      simp only [List.nil_append, gather, digit?_eq, hr, Nat.ofDigitChars_nil, List.length_nil,
        Bool.false_eq_true, if_false]
  | cons c ds ih =>
    obtain ⟨hc, hd⟩ := List.forall_mem_cons.mp hd
    rw [Nat.ofDigitChars_cons, Nat.mul_comm] at hn ⊢
    have hlt := Nat.lt_of_le_of_lt (le_ofDigitChars ds _) hn
    simp only [List.cons_append, gather, digit?_eq, hc, if_true, hlt, ih hd hn, List.length_cons]

theorem byte?_integer {n : Int} {b : UInt8} : (integer n).byte? = some b ↔ n = b.toNat := by
  have hb := b.toNat_lt
  change (if 0 ≤ n ∧ n < 256 then some (UInt8.ofNat n.toNat) else none) = some b ↔ _
  by_cases h : 0 ≤ n ∧ n < 256
  · rw [if_pos h, Option.some.injEq, ← UInt8.toNat_inj, UInt8.toNat_ofNat']
    omega
  · rw [if_neg h]
    constructor
    · intro h
      cases h
    · intro hn
      omega

/-! ## What ends a number -/

/-- Whether a number cannot go on with this text. -/
def EndsNumber (s : List Char) : Prop :=
  ∀ c ∈ s.head?, c.isDigit = false ∧ c ≠ '.' ∧ c ≠ 'e' ∧ c ≠ 'E'

theorem EndsNumber.startsWithDigit_eq {s : List Char} (h : EndsNumber s) :
    startsWithDigit s = false := by
  cases s with
  | nil => rfl
  | cons c r => exact (startsWithDigit_cons c r).trans (h c rfl).1

end Keyfile.Json
