/-!
# Little-endian numbers

Numbers as they lie in memory: least significant byte first, in a fixed number of bytes.

## Main results

* `decode_encode`: a number reads back as itself, cut to the width it was written with.
-/

namespace InterCore.LittleEndian

/-- The least number that needs more than `width` bytes. -/
def bound : Nat → Nat
  | 0 => 1
  | width + 1 => 256 * bound width

/-- The `width` low bytes of a number, least significant first. -/
def encode : Nat → Nat → List UInt8
  | 0, _ => []
  | width + 1, n => UInt8.ofNat n :: encode width (n / 256)

/-- The number whose bytes are given, least significant first. -/
def decode : List UInt8 → Nat
  | [] => 0
  | b :: bs => b.toNat + 256 * decode bs

@[simp] theorem length_encode (width n : Nat) : (encode width n).length = width := by
  induction width generalizing n with
  | zero => rfl
  | succ width ih => simp [encode, ih]

theorem decode_encode (width n : Nat) : decode (encode width n) = n % bound width := by
  induction width generalizing n with
  | zero => simp [encode, decode, bound, Nat.mod_one]
  | succ width ih =>
    simp only [encode, decode, bound, ih, UInt8.toNat_ofNat']
    rw [Nat.mod_mul]

end InterCore.LittleEndian
