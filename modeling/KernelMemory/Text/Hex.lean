/-!
# Hexadecimal text

Fixed-width upper-case hexadecimal, the form in which addresses are written.
-/

namespace KernelMemory.Text

/-- The upper-case digit of `n` in base sixteen; meant for `n < 16`. -/
def upperDigit (n : Nat) : Char :=
  if n < 10 then Char.ofNat ('0'.toNat + n) else Char.ofNat ('A'.toNat + (n - 10))

/-- The lowest `width` digits of `n` in base sixteen, most significant first. -/
def upperDigits : (width n : Nat) → List Char
  | 0, _ => []
  | width + 1, n => upperDigits width (n / 16) ++ [upperDigit (n % 16)]

/-- A 64-bit word as `0x` and its sixteen digits. -/
def hexWord (n : UInt64) : String :=
  "0x" ++ String.ofList (upperDigits 16 n.toNat)

end KernelMemory.Text
