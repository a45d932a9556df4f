import Keyfile.Bytes

/-!
# UTF-8

`encode` writes text as bytes. Reading goes through `pieces`, which splits a byte string into
characters and ill-formed stretches: `decode?` accepts the strings without such a stretch, `lossy`
shows each stretch as one U+FFFD. A stretch is as long as it could still have become a character.
-/
namespace Keyfile.Utf8

/-- The bytes of one character. -/
def encodeChar (c : Char) : Bytes :=
  let n := c.toNat
  if n < 0x80 then [UInt8.ofNat n]
  else if n < 0x800 then [UInt8.ofNat (0xC0 + n / 0x40), UInt8.ofNat (0x80 + n % 0x40)]
  else if n < 0x10000 then
    [UInt8.ofNat (0xE0 + n / 0x1000), UInt8.ofNat (0x80 + n / 0x40 % 0x40),
      UInt8.ofNat (0x80 + n % 0x40)]
  else
    [UInt8.ofNat (0xF0 + n / 0x40000), UInt8.ofNat (0x80 + n / 0x1000 % 0x40),
      UInt8.ofNat (0x80 + n / 0x40 % 0x40), UInt8.ofNat (0x80 + n % 0x40)]

def encode (s : List Char) : Bytes := s.flatMap encodeChar

@[simp] theorem encode_nil : encode [] = [] := rfl

@[simp] theorem encode_cons (c : Char) (s : List Char) :
    encode (c :: s) = encodeChar c ++ encode s := by simp [encode]

@[simp] theorem encode_append (s t : List Char) : encode (s ++ t) = encode s ++ encode t := by
  simp [encode]

/-- The bytes of a string. -/
def ofString (s : String) : Bytes := encode s.toList

/-- Whether a byte can follow the first byte of a character. -/
def isTail (b : UInt8) : Bool := 0x80 ≤ b && b ≤ 0xBF

/-- Whether `b` can be the second byte of a character whose first byte is `a`: the bounds leave out
overlong forms, surrogates and numbers above U+10FFFF. -/
def isSecond (a b : UInt8) : Bool :=
  if a = 0xE0 then 0xA0 ≤ b && b ≤ 0xBF
  else if a = 0xED then 0x80 ≤ b && b ≤ 0x9F
  else if a = 0xF0 then 0x90 ≤ b && b ≤ 0xBF
  else if a = 0xF4 then 0x80 ≤ b && b ≤ 0x8F
  else isTail b

/-- The payload of a byte after the first. -/
def low (b : UInt8) : Nat := b.toNat - 0x80

/-- The first character of `a :: r`, or `none` for an ill-formed stretch, and what follows it. -/
def next (a : UInt8) (r : Bytes) : Option Char × Bytes :=
  if a < 0x80 then (some (Char.ofNat a.toNat), r)
  else if 0xC2 ≤ a && a ≤ 0xDF then
    match r with
    | b :: r =>
      if isTail b then (some (Char.ofNat ((a.toNat - 0xC0) * 0x40 + low b)), r)
      else (none, b :: r)
    | [] => (none, [])
  else if 0xE0 ≤ a && a ≤ 0xEF then
    match r with
    | b :: c :: r =>
      if isSecond a b then
        if isTail c then
          (some (Char.ofNat ((a.toNat - 0xE0) * 0x1000 + low b * 0x40 + low c)), r)
        else (none, c :: r)
      else (none, b :: c :: r)
    | [b] => (none, if isSecond a b then [] else [b])
    | [] => (none, [])
  else if 0xF0 ≤ a && a ≤ 0xF4 then
    match r with
    | b :: c :: d :: r =>
      if isSecond a b then
        if isTail c then
          if isTail d then
            (some (Char.ofNat
              ((a.toNat - 0xF0) * 0x40000 + low b * 0x1000 + low c * 0x40 + low d)), r)
          else (none, d :: r)
        else (none, c :: d :: r)
      else (none, b :: c :: d :: r)
    | [b, c] => (none, if isSecond a b then (if isTail c then [] else [c]) else [b, c])
    | [b] => (none, if isSecond a b then [] else [b])
    | [] => (none, [])
  else (none, r)

theorem length_next_le (a : UInt8) (r : Bytes) : (next a r).2.length ≤ r.length := by
  unfold next
  repeat' split
  all_goals simp_all <;> omega

/-- The characters of a byte string in order, `none` for each ill-formed stretch. -/
def pieces : Bytes → List (Option Char)
  | [] => []
  | a :: r => (next a r).1 :: pieces (next a r).2
termination_by b => b.length
decreasing_by
  have := length_next_le a r
  simp only [List.length_cons]
  omega

/-- The text a byte string holds, if it is well-formed. -/
def decode? (b : Bytes) : Option (List Char) := (pieces b).mapM id

/-- The text of a byte string for display. -/
def lossy (b : Bytes) : String := String.ofList ((pieces b).map (·.getD '\uFFFD'))

end Keyfile.Utf8
