import Keyfile.Json.Printer
import Keyfile.Proofs.Json.Characters
import Mathlib.Tactic.IntervalCases

/-!
# JSON strings that are written

What is written for a string spells that string, whatever it holds: each character is either plain,
or escaped as one of the grammar's escapes for it. So it is read back as the string.
-/
namespace Keyfile.Json

theorem hexValue?_hexDigit {n : Nat} (h : n < 16) : hexValue? (hexDigit n) = some n := by
  interval_cases n <;> decide

/-- A control character is written with the digits of its code point. -/
theorem quad_control {c : Char} (h : c.toNat < 0x20) :
    Quad ['0', '0', hexDigit (c.toNat / 16), hexDigit (c.toNat % 16)] c.toNat := by
  have hhigh := hexValue?_hexDigit (n := c.toNat / 16) (by omega)
  have hlow := hexValue?_hexDigit (n := c.toNat % 16) (by omega)
  have hzero : hexValue? '0' = some 0 := by decide
  have hn : 0 * 0x1000 + 0 * 0x100 + c.toNat / 16 * 0x10 + c.toNat % 16 = c.toNat := by omega
  have hq := Quad.intro hzero hzero hhigh hlow
  rwa [hn] at hq

/-- What is written for a character spells it. -/
theorem charText_escapeChar (c : Char) : CharText (escapeChar c) c := by
  unfold escapeChar
  split_ifs with h₁ h₂ h₃ h₄ h₅ h₆ h₇ h₈
  · rw [h₁]
    exact .short (by decide)
  · rw [h₂]
    exact .short (by decide)
  · rw [h₃]
    exact .short (by decide)
  · rw [h₄]
    exact .short (by decide)
  · rw [h₅]
    exact .short (by decide)
  · rw [h₆]
    exact .short (by decide)
  · rw [h₇]
    exact .short (by decide)
  · have ht := CharText.unit (quad_control h₈) (by omega)
    rwa [Char.ofNat_toNat] at ht
  · exact .plain h₁ h₂ (Nat.not_lt.mp h₈)

theorem charsText_escaped (s : List Char) : CharsText (s.flatMap escapeChar) s := by
  induction s with
  | nil => exact .nil
  | cons c s ih =>
    rw [List.flatMap_cons]
    exact .cons (charText_escapeChar c) ih

theorem stringText_quote (s : String) : StringText (quote s) s := by
  have h := StringText.intro (charsText_escaped s.toList)
  rwa [String.ofList_toList] at h

end Keyfile.Json
