/-!
# Hexadecimal numbers

Lower-case hexadecimal text with leading zeros up to a given width.
-/

namespace InterCore.Hexadecimal

/-- The digits of a number, padded with zeros on the left to at least `width` digits. -/
def digits (width n : Nat) : List Char :=
  (Nat.toDigits 16 n).leftpad width '0'

/-- A number with its mark: `0x` and at least `width` digits. -/
def text (width n : Nat) : String :=
  "0x" ++ String.ofList (digits width n)

/-- Bytes one after the other, two digits each. -/
def ofBytes (bytes : List UInt8) : String :=
  String.ofList (bytes.flatMap fun b => digits 2 b.toNat)

example : text 2 0 = "0x00" ∧ text 2 255 = "0xff" ∧ text 4 0x0c03 = "0x0c03" := by decide +kernel

end InterCore.Hexadecimal
