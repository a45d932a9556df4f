import Keyfile.Sha512

/-!
# Ed25519 keys

A seed of 32 bytes determines a public key of 32 bytes: the digest of the seed gives a multiple of
the base point of the twisted Edwards curve -x² + y² = 1 + d·x²·y² over the integers modulo
2^255 - 19, and the key is the written form of that point.
-/
namespace Keyfile

/-- A secret of exactly 32 bytes. -/
structure Seed where
  bytes : Bytes
  length_eq : bytes.length = 32
  deriving DecidableEq

/-- A public key of exactly 32 bytes. -/
structure PublicKey where
  bytes : Bytes
  length_eq : bytes.length = 32
  deriving DecidableEq

/-- The seed with these bytes, if there are 32 of them. -/
def Seed.ofBytes? (b : Bytes) : Option Seed :=
  if h : b.length = 32 then some ⟨b, h⟩ else none

/-- The public key with these bytes, if there are 32 of them. -/
def PublicKey.ofBytes? (b : Bytes) : Option PublicKey :=
  if h : b.length = 32 then some ⟨b, h⟩ else none

namespace Ed25519

/-- The modulus of the field. -/
def modulus : Nat := Nat.pow 2 255 - 19

instance : @NeZero Nat Zero.ofOfNat0 modulus := @NeZero.mk Nat Zero.ofOfNat0 modulus (by decide)

/-- An element of the field. -/
abbrev Field := Fin modulus

/-- The power of an element, by squaring along the binary digits of the exponent. -/
def power (x : Field) (n : Nat) : Field :=
  ((List.range (n.log2 + 1)).reverse).foldl
    (fun r i => if n.testBit i then r * r * x else r * r) 1

/-- The inverse of an element other than zero. -/
def inverse (x : Field) : Field := power x (modulus - 2)

/-- The constant d = -121665/121666 of the curve. -/
def curveConstant : Field :=
  37095705934669439343138083508754565189542113879843219016388785533085940283555

/-- A point of the curve: x = X/Z, y = Y/Z and T = XY/Z. -/
structure Point where
  X : Field
  Y : Field
  Z : Field
  T : Field

def Point.zero : Point := ⟨0, 1, 1, 0⟩

/-- The generator: y is 4/5 and x is even. -/
def Point.base : Point :=
  let x : Field := 15112221349535400772501151409588531511454012693041857206046113283949847762202
  let y : Field := 46316835694926478169428394003475163141307993866256225615783033603165251855960
  ⟨x, y, 1, x * y⟩

/-- The sum of two points; the formulas hold for equal points too. -/
def Point.add (p q : Point) : Point :=
  let a := (p.Y - p.X) * (q.Y - q.X)
  let b := (p.Y + p.X) * (q.Y + q.X)
  let c := 2 * curveConstant * p.T * q.T
  let d := 2 * p.Z * q.Z
  ⟨(b - a) * (d - c), (d + c) * (b + a), (d - c) * (d + c), (b - a) * (b + a)⟩

/-- The multiple of a point by a number below 2^256. -/
def Point.multiple (p : Point) (n : Nat) : Point :=
  ((List.range 256).reverse).foldl
    (fun r i => let s := r.add r; if n.testBit i then s.add p else s) Point.zero

/-- The number a point is written as: y, with the parity of x in bit 255. -/
def Point.number (p : Point) : Nat :=
  let z := inverse p.Z
  (p.Y * z).val + Nat.pow 2 255 * ((p.X * z).val % 2)

/-- The multiplier a digest denotes: its first 32 bytes with bits 0, 1, 2 and 255 cleared and bit
254 set. -/
def scalar (digest : Bytes) : Nat :=
  let n := Bytes.littleEndian (digest.take 32) % Nat.pow 2 254
  Nat.pow 2 254 + (n - n % 8)

end Ed25519

/-- The public key that belongs to a seed. -/
def Seed.publicKey (s : Seed) : PublicKey where
  bytes := Bytes.ofNatLittle 32
    (Ed25519.Point.base.multiple (Ed25519.scalar (Sha512.digest s.bytes))).number
  length_eq := Bytes.length_ofNatLittle ..

end Keyfile
