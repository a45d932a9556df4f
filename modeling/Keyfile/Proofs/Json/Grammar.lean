import Keyfile.Json.Reader
import Keyfile.Proofs.Json.Numeral

/-!
# The grammar of JSON text

`Document` says which texts spell which values, without a reader: what may stand where, and what it
stands for. Numbers keep to 64 bits or to the range of floating-point numbers, half a surrogate pair
is no character, and arrays and objects are nested no deeper than `depthLimit`.
-/
namespace Keyfile.Json

/-- White space between tokens. -/
def Spaces (s : List Char) : Prop := ∀ c ∈ s, isSpace c = true

/-- Decimal digits, or none. -/
def Digits (s : List Char) : Prop := ∀ c ∈ s, c.isDigit = true

/-! ## Numbers -/

/-- A natural number behind a sign. -/
def signed (negative : Bool) (n : Nat) : Int := if negative then -n else n

/-- Whether a number is an integer of 64 bits. Zero is none behind a minus. -/
def Fits (negative : Bool) (n : Nat) : Prop :=
  if negative then n ≠ 0 ∧ n ≤ Nat.pow 2 63 else n < Nat.pow 2 64

/-- A point with digits behind it, or nothing at all. -/
inductive Fraction : (text digits : List Char) → Prop
  | absent : Fraction [] []
  | present {ds : List Char} : ds ≠ [] → Digits ds → Fraction ('.' :: ds) ds

/-- The sign of an exponent, and whether it is a minus. -/
inductive Sign : List Char → Bool → Prop
  | absent : Sign [] false
  | plus : Sign ['+'] false
  | minus : Sign ['-'] true

/-- The power of ten that a number is scaled by, or nothing at all. -/
inductive Exponent : List Char → Int → Prop
  | absent : Exponent [] 0
  | present {e : Char} {sign ds : List Char} {down : Bool} :
      e = 'e' ∨ e = 'E' → Sign sign down → ds ≠ [] → Digits ds →
      Exponent (e :: (sign ++ ds)) (signed down (Nat.ofDigitChars 10 ds 0))

/-- The digits of a number that count, as one integer of 64 bits, and its power of ten: digits that
are left out before the point count up, and those that count behind it down. -/
def significand (whole fraction : List Char) : Nat × Int :=
  let (m, _, left) := gather 0 whole
  let (m, k, _) := gather m fraction
  (m, left.length - k)

/-- The floating-point number that is read for `digits · 10^(places + exponent)`, if there is one.
An exponent of 2^31 or more, up or down, is out of range whatever the number of places. -/
def double? (digits : Nat) (places exponent : Int) : Option Binary64 :=
  if exponent.natAbs < Nat.pow 2 31 then
    (Binary64.ofNat digits).bind fun x => scale x 5 (places + exponent)
  else if digits ≠ 0 ∧ 0 < exponent then none
  else some Binary64.zero

/-- A number behind its sign. -/
inductive Magnitude (negative : Bool) : List Char → Json → Prop
  | integer {ds : List Char} {n : Nat} : Numeral ds n → Fits negative n →
      Magnitude negative ds (.integer (signed negative n))
  | double {ds f fs e : List Char} {n : Nat} {x : Int} {y : Binary64} :
      Numeral ds n → Fraction f fs → Exponent e x → (Fits negative n → f ++ e ≠ []) →
      double? (significand ds fs).1 (significand ds fs).2 x = some y →
      Magnitude negative (ds ++ f ++ e) (.double (y.withSign negative))

/-! ## Strings -/

/-- The letters behind a backslash that stand for one character. -/
def shortEscapes : List (Char × Char) :=
  [('\x22', '\x22'), ('\\', '\\'), ('/', '/'), ('b', '\x08'), ('f', '\x0c'), ('n', '\n'),
    ('r', '\r'), ('t', '\t')]

/-- Four hexadecimal digits. -/
inductive Quad : List Char → Nat → Prop
  | intro {a b c d : Char} {i j k l : Nat} :
      hexValue? a = some i → hexValue? b = some j → hexValue? c = some k → hexValue? d = some l →
      Quad [a, b, c, d] (i * 0x1000 + j * 0x100 + k * 0x10 + l)

/-- One character between the quotes of a string. -/
inductive CharText : List Char → Char → Prop
  | plain {c : Char} : c ≠ '\x22' → c ≠ '\\' → 0x20 ≤ c.toNat → CharText [c] c
  | short {e c : Char} : (e, c) ∈ shortEscapes → CharText ['\\', e] c
  | unit {q : List Char} {n : Nat} : Quad q n → n < 0xD800 ∨ 0xDFFF < n →
      CharText ('\\' :: 'u' :: q) (Char.ofNat n)
  | pair {q q' : List Char} {n m : Nat} : Quad q n → 0xD800 ≤ n → n < 0xDC00 →
      Quad q' m → 0xDC00 ≤ m → m ≤ 0xDFFF →
      CharText ('\\' :: 'u' :: (q ++ '\\' :: 'u' :: q'))
        (Char.ofNat (0x10000 + (n - 0xD800) * 0x400 + (m - 0xDC00)))

/-- The characters between the quotes of a string. -/
inductive CharsText : List Char → List Char → Prop
  | nil : CharsText [] []
  | cons {t u s : List Char} {c : Char} :
      CharText t c → CharsText u s → CharsText (t ++ u) (c :: s)

inductive StringText : List Char → String → Prop
  | intro {t s : List Char} :
      CharsText t s → StringText ('\x22' :: (t ++ ['\x22'])) (String.ofList s)

/-! ## Values -/

/-- At least one item, with commas between the items and white space around each. -/
inductive Separated {α : Type} (item : List Char → α → Prop) : List Char → List α → Prop
  | one {w t w' : List Char} {a : α} :
      Spaces w → item t a → Spaces w' → Separated item (w ++ t ++ w') [a]
  | cons {w t w' u : List Char} {a : α} {as : List α} :
      Spaces w → item t a → Spaces w' → Separated item u as →
      Separated item (w ++ t ++ w' ++ ',' :: u) (a :: as)

/-- Items between brackets; there may be none. -/
inductive Items {α : Type} (item : List Char → α → Prop) : List Char → List α → Prop
  | none {w : List Char} : Spaces w → Items item w []
  | some {t : List Char} {as : List α} : Separated item t as → Items item t as

/-- A member of an object: its name, a colon, and its value as `part` says. -/
inductive Member (part : List Char → Json → Prop) : List Char → String × Json → Prop
  | intro {k w w' t : List Char} {n : String} {v : Json} :
      StringText k n → Spaces w → Spaces w' → part t v →
      Member part (k ++ w ++ ':' :: (w' ++ t)) (n, v)

/-- A value without parts. -/
inductive Scalar : List Char → Json → Prop
  | null : Scalar "null".toList .null
  | true : Scalar "true".toList (.bool true)
  | false : Scalar "false".toList (.bool false)
  | unsigned {t : List Char} {v : Json} : Magnitude false t v → Scalar t v
  | negative {t : List Char} {v : Json} : Magnitude true t v → Scalar ('-' :: t) v
  | string {t : List Char} {s : String} : StringText t s → Scalar t (.string s)

/-- An array or an object with the parts that `part` says. -/
inductive Bracketed (part : List Char → Json → Prop) : List Char → Json → Prop
  | array {t : List Char} {vs : List Json} :
      Items part t vs → Bracketed part ('[' :: (t ++ [']'])) (.array vs)
  | object {t : List Char} {ms : List (String × Json)} :
      Items (Member part) t ms → Bracketed part ('\x7b' :: (t ++ ['\x7d'])) (ofMembers ms)

/-- A value with at most `depth` arrays and objects open inside each other. -/
def Nested : (depth : Nat) → List Char → Json → Prop
  | 0 => Scalar
  | depth + 1 => fun t v => Scalar t v ∨ Bracketed (Nested depth) t v

/-- A whole text: one value with nothing but white space around it. -/
inductive Document : List Char → Json → Prop
  | intro {w t w' : List Char} {v : Json} :
      Spaces w → Nested depthLimit t v → Spaces w' → Document (w ++ t ++ w') v

/-! ## White space -/

theorem exists_spaces (s : List Char) : ∃ w, Spaces w ∧ s = w ++ skipSpace s := by
  refine ⟨s.takeWhile isSpace, ?_, List.takeWhile_append_dropWhile.symm⟩
  intro c hc
  exact List.all_eq_true.mp List.all_takeWhile c hc

theorem skipSpace_append {w : List Char} (hw : Spaces w) (s : List Char) :
    skipSpace (w ++ s) = skipSpace s :=
  List.dropWhile_append_of_pos hw

theorem skipSpace_cons {c : Char} (hc : isSpace c = false) (s : List Char) :
    skipSpace (c :: s) = c :: s := by
  rw [skipSpace, List.dropWhile_cons, hc]
  rfl

theorem skipSpace_eq_nil {s : List Char} (h : skipSpace s = []) : Spaces s := by
  obtain ⟨w, hw, hs⟩ := exists_spaces s
  rw [hs, h, List.append_nil]
  exact hw

theorem isSpace_of_isDigit {c : Char} (h : c.isDigit = true) : isSpace c = false := by
  by_contra hs
  simp only [isSpace, Bool.not_eq_false, Bool.or_eq_true, decide_eq_true_eq] at hs
  rcases hs with ((rfl | rfl) | rfl) | rfl <;> exact absurd h (by decide)

theorem spaces_nil : Spaces [] := List.forall_mem_nil _

/-- White space, a comma or a bracket ends a number. -/
theorem endsNumber_spaces {w s : List Char} (hw : Spaces w) (hs : EndsNumber s) :
    EndsNumber (w ++ s) := by
  cases w with
  | nil => exact hs
  | cons c w =>
    intro d hd
    cases hd
    have hc := hw c List.mem_cons_self
    simp only [isSpace, Bool.or_eq_true, decide_eq_true_eq] at hc
    rcases hc with ((rfl | rfl) | rfl) | rfl <;> decide

theorem endsNumber_comma (s : List Char) : EndsNumber (',' :: s) := by
  intro c hc
  cases hc
  decide

theorem endsNumber_bracket (s : List Char) : EndsNumber (']' :: s) := by
  intro c hc
  cases hc
  decide

end Keyfile.Json
