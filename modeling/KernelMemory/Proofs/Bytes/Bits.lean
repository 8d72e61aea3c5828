import KernelMemory.Bytes
import Mathlib.Data.Nat.Bitwise

/-!
# Byte arrays as sequences of bits

Bit `i` of a byte array is bit `i % 8` of byte `i / 8`, and every bit behind the
last byte is clear.  The main statements say what the masks of a bitmap do to
the bits of a byte, how a write changes the bits of an array, and that an array
is determined by its size and its bits.
-/

namespace KernelMemory.Bytes

/-- Bit `i` of a byte array. -/
def bit (bytes : ByteArray) (i : Nat) : Bool :=
  if h : i / 8 < bytes.size then bytes[i / 8].toNat.testBit (i % 8) else false

/-! ## Masks -/

theorem toNat_mask {k : Nat} (hk : k < 8) :
    ((1 : UInt8) <<< UInt8.ofNat k).toNat = 2 ^ k := by
  have hlt : 2 ^ k < 2 ^ 8 := Nat.pow_lt_pow_right (by decide) hk
  have hshift : (UInt8.ofNat k).toNat % 8 = k := by
    rw [UInt8.toNat_ofNat']
    omega
  rw [UInt8.toNat_shiftLeft, hshift]
  change 1 <<< k % 2 ^ 8 = 2 ^ k
  rw [Nat.one_shiftLeft, Nat.mod_eq_of_lt hlt]

/-- A masked byte is nonzero exactly if the bit under the mask is set. -/
theorem and_mask_ne_zero (byte : UInt8) {k : Nat} (hk : k < 8) :
    (byte &&& (1 <<< UInt8.ofNat k) != 0) = byte.toNat.testBit k := by
  have hzero : byte &&& (1 <<< UInt8.ofNat k) = 0 ↔ byte.toNat.testBit k = false := by
    rw [← UInt8.toNat_inj, UInt8.toNat_and, toNat_mask hk, Nat.and_two_pow]
    have hpos : 0 < 2 ^ k := Nat.two_pow_pos k
    cases byte.toNat.testBit k
    · simp
    · simp
  cases hbit : byte.toNat.testBit k
  · simp [hzero.2 hbit]
  · have hne : byte &&& (1 <<< UInt8.ofNat k) ≠ 0 := fun h => by
      simp [hzero.1 h] at hbit
    simp [hne]

theorem testBit_or_mask (byte : UInt8) {k : Nat} (hk : k < 8) (j : Nat) :
    (byte ||| (1 <<< UInt8.ofNat k)).toNat.testBit j =
      (byte.toNat.testBit j || decide (j = k)) := by
  rw [UInt8.toNat_or, toNat_mask hk, Nat.testBit_or, Nat.testBit_two_pow]
  simp [eq_comm]

theorem testBit_and_not_mask (byte : UInt8) {k : Nat} (hk : k < 8) {j : Nat} (hj : j < 8) :
    (byte &&& ~~~(1 <<< UInt8.ofNat k)).toNat.testBit j =
      (byte.toNat.testBit j && decide (j ≠ k)) := by
  have hnot : (~~~((1 : UInt8) <<< UInt8.ofNat k)).toNat = 2 ^ 8 - (2 ^ k + 1) := by
    rw [UInt8.toNat_not, toNat_mask hk]
    change 256 - 1 - 2 ^ k = 256 - (2 ^ k + 1)
    omega
  have hlt : 2 ^ k < 2 ^ 8 := Nat.pow_lt_pow_right (by decide) hk
  rw [UInt8.toNat_and, hnot, Nat.testBit_and, Nat.testBit_two_pow_sub_succ hlt,
    Nat.testBit_two_pow]
  simp [hj, eq_comm]

theorem testBit_full {j : Nat} (hj : j < 8) : (0xFF : UInt8).toNat.testBit j = true := by
  have hfull : (0xFF : UInt8).toNat = 2 ^ 8 - 1 := rfl
  rw [hfull, Nat.testBit_two_pow_sub_one]
  exact decide_eq_true hj

theorem eq_of_testBit {a b : UInt8}
    (h : ∀ j, j < 8 → a.toNat.testBit j = b.toNat.testBit j) : a = b := by
  rw [← UInt8.toNat_inj]
  apply Nat.eq_of_testBit_eq
  intro j
  by_cases hj : j < 8
  · exact h j hj
  · have hle : 2 ^ 8 ≤ 2 ^ j := Nat.pow_le_pow_right (by decide) (by omega)
    rw [Nat.testBit_lt_two_pow (Nat.lt_of_lt_of_le a.toNat_lt hle),
      Nat.testBit_lt_two_pow (Nat.lt_of_lt_of_le b.toNat_lt hle)]

theorem eq_full_iff {byte : UInt8} :
    byte = 0xFF ↔ ∀ j, j < 8 → byte.toNat.testBit j = true := by
  constructor
  · rintro rfl j hj
    exact testBit_full hj
  · intro h
    apply eq_of_testBit
    intro j hj
    rw [h j hj, testBit_full hj]

theorem eq_zero_iff {byte : UInt8} :
    byte = 0 ↔ ∀ j, j < 8 → byte.toNat.testBit j = false := by
  constructor
  · rintro rfl j _
    exact Nat.zero_testBit j
  · intro h
    apply eq_of_testBit
    intro j hj
    rw [h j hj]
    exact (Nat.zero_testBit j).symm

/-! ## Bits of arrays -/

theorem bit_of_lt {bytes : ByteArray} {i : Nat} (h : i / 8 < bytes.size) :
    bit bytes i = bytes[i / 8].toNat.testBit (i % 8) := by
  simp [bit, h]

theorem bit_of_le {bytes : ByteArray} {i : Nat} (h : bytes.size ≤ i / 8) :
    bit bytes i = false := by
  simp [bit, Nat.not_lt.2 h]

theorem bit_eight_mul_add {bytes : ByteArray} {k j : Nat} (hk : k < bytes.size) (hj : j < 8) :
    bit bytes (8 * k + j) = bytes[k].toNat.testBit j := by
  have hdiv : (8 * k + j) / 8 = k := by omega
  have hmod : (8 * k + j) % 8 = j := by omega
  simp [bit, hdiv, hmod, hk]

theorem bit_set (bytes : ByteArray) {k : Nat} (h : k < bytes.size) (value : UInt8) (i : Nat) :
    bit (bytes.set k value h) i =
      if i / 8 = k then value.toNat.testBit (i % 8) else bit bytes i := by
  by_cases hi : i / 8 < bytes.size
  · have hset : i / 8 < (bytes.set k value h).size := by rw [size_set]; exact hi
    rw [bit_of_lt hset, bit_of_lt hi, getElem_set bytes k value h (i / 8) hset hi]
    by_cases hk : k = i / 8
    · simp [hk]
    · simp [hk, Ne.symm hk]
  · have hset : (bytes.set k value h).size ≤ i / 8 := by rw [size_set]; omega
    have hne : i / 8 ≠ k := by omega
    rw [bit_of_le hset, bit_of_le (Nat.not_lt.1 hi), if_neg hne]

theorem bit_extract (bytes : ByteArray) (start : Nat) {stop : Nat} (h : stop ≤ bytes.size)
    (i : Nat) :
    bit (bytes.extract start stop) i =
      if start + i / 8 < stop then bit bytes (8 * start + i) else false := by
  have hsize : (bytes.extract start stop).size = stop - start := by
    rw [ByteArray.size_extract]
    omega
  have hdiv : (8 * start + i) / 8 = start + i / 8 := by omega
  have hmod : (8 * start + i) % 8 = i % 8 := by omega
  by_cases hi : start + i / 8 < stop
  · have hin : i / 8 < (bytes.extract start stop).size := by omega
    have hb : start + i / 8 < bytes.size := by omega
    rw [if_pos hi, bit_of_lt hin, ByteArray.getElem_extract]
    simp [bit, hdiv, hmod, hb]
  · rw [if_neg hi, bit_of_le (by omega)]

theorem bit_replicate_zero (n i : Nat) : bit (replicate n 0) i = false := by
  by_cases h : i / 8 < (replicate n 0).size
  · rw [bit_of_lt h, ByteArray.getElem_eq_getElem_data]
    simp [data_replicate]
  · exact bit_of_le (Nat.not_lt.1 h)

theorem bit_append (a b : ByteArray) (i : Nat) :
    bit (a ++ b) i = if i / 8 < a.size then bit a i else bit b (i - 8 * a.size) := by
  by_cases ha : i / 8 < a.size
  · have hin : i / 8 < (a ++ b).size := by rw [ByteArray.size_append]; omega
    rw [if_pos ha, bit_of_lt hin, bit_of_lt ha, ByteArray.getElem_append_left ha]
  · have hdiv : (i - 8 * a.size) / 8 = i / 8 - a.size := by omega
    have hmod : (i - 8 * a.size) % 8 = i % 8 := by omega
    rw [if_neg ha]
    by_cases hb : i / 8 < (a ++ b).size
    · have hin : i / 8 - a.size < b.size := by rw [ByteArray.size_append] at hb; omega
      rw [bit_of_lt hb, ByteArray.getElem_append_right (Nat.not_lt.1 ha)]
      simp [bit, hdiv, hmod, hin]
    · have hout : b.size ≤ (i - 8 * a.size) / 8 := by rw [ByteArray.size_append] at hb; omega
      rw [bit_of_le (Nat.not_lt.1 hb), bit_of_le hout]

/-- An array is determined by its size and its bits. -/
theorem eq_of_bit {a b : ByteArray} (hsize : a.size = b.size)
    (h : ∀ i, i < 8 * a.size → bit a i = bit b i) : a = b := by
  apply ByteArray.ext_getElem hsize
  intro k ha hb
  apply eq_of_testBit
  intro j hj
  rw [← bit_eight_mul_add ha hj, ← bit_eight_mul_add hb hj]
  exact h _ (by omega)

end KernelMemory.Bytes
