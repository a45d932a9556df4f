/-!
# Byte strings

Paths, file contents, standard input and output are lists of bytes. Numbers are read from and
written to them in either order; the written forms have a fixed size.
-/
namespace Keyfile

abbrev Bytes := List UInt8

namespace Bytes

/-- The number a byte string denotes, most significant byte first. -/
def bigEndian (b : Bytes) : Nat := b.foldl (fun n x => n * 256 + x.toNat) 0

/-- The number a byte string denotes, least significant byte first. -/
def littleEndian : Bytes → Nat
  | [] => 0
  | x :: r => x.toNat + 256 * littleEndian r

/-- The low `size` bytes of `n`, least significant byte first. -/
def ofNatLittle : (size n : Nat) → Bytes
  | 0, _ => []
  | size + 1, n => UInt8.ofNat (n % 256) :: ofNatLittle size (n / 256)

/-- The low `size` bytes of `n`, most significant byte first. -/
def ofNatBig (size n : Nat) : Bytes := (ofNatLittle size n).reverse

@[simp] theorem length_ofNatLittle (size n : Nat) : (ofNatLittle size n).length = size := by
  induction size generalizing n with
  | zero => rfl
  | succ k ih => simp [ofNatLittle, ih]

@[simp] theorem length_ofNatBig (size n : Nat) : (ofNatBig size n).length = size := by
  simp [ofNatBig]

end Bytes

end Keyfile
