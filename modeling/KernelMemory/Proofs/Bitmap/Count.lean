import KernelMemory.Proofs.Bitmap.Marks
import Mathlib.Data.Nat.Count
import Mathlib.Order.Interval.Finset.Nat

/-!
# Counting the units in use

The counts of a bitmap are the sizes of two complementary sets of tracked
units.  The whole bytes are counted by adding neighbouring bits, and the last
byte under a mask, so padding is never counted.
-/

namespace KernelMemory.Bitmap

open Finset

/-- The tracked units that are in use. -/
def setUnits (map : Bitmap) : Finset ℕ := {i ∈ range map.units | map.isSet i = true}

theorem mem_setUnits {map : Bitmap} {i : ℕ} :
    i ∈ map.setUnits ↔ i < map.units ∧ map.isSet i = true := by
  simp [setUnits]

theorem card_setUnits_le (map : Bitmap) : map.setUnits.card ≤ map.units := by
  have := card_filter_le (range map.units) (fun i => map.isSet i = true)
  rwa [card_range] at this

/-- Adding neighbouring bits, pairs and halves counts the set bits of a byte. -/
theorem popCount_eq_count (byte : UInt8) :
    popCount byte = Nat.count (fun j => byte.toNat.testBit j = true) 8 := by
  have hall : ∀ n : Fin 256, popCount (UInt8.ofNat n) =
      Nat.count (fun j => (UInt8.ofNat n).toNat.testBit j = true) 8 := by
    decide +kernel
  have hbyte := hall ⟨byte.toNat, byte.toNat_lt⟩
  rwa [UInt8.ofNat_toNat] at hbyte

theorem popCount_byte (map : Bitmap) {k : ℕ} (h : k < map.length) :
    popCount (map.byte k h) = Nat.count (fun j => map.isSet (8 * k + j) = true) 8 := by
  rw [popCount_eq_count, Nat.count_eq_card_filter_range, Nat.count_eq_card_filter_range]
  congr 1
  apply filter_congr
  intro j hj
  rw [map.byte_testBit h (mem_range.1 hj)]

theorem popCount_byte_and_mask
    (map : Bitmap) {k t : ℕ} (h : k < map.length) (ht : t < 8) :
    popCount (map.byte k h &&& ((1 <<< UInt8.ofNat t) - 1)) =
      Nat.count (fun j => map.isSet (8 * k + j) = true) t := by
  have hmask : ((1 : UInt8) <<< UInt8.ofNat t - 1).toNat = 2 ^ t - 1 := by
    have hone : (1 : UInt8) ≤ 1 <<< UInt8.ofNat t := by
      rw [UInt8.le_iff_toNat_le, Bytes.toNat_mask ht]
      exact Nat.one_le_two_pow
    rw [UInt8.toNat_sub_of_le _ _ hone, Bytes.toNat_mask ht]
    rfl
  rw [popCount_eq_count, Nat.count_eq_card_filter_range, Nat.count_eq_card_filter_range]
  congr 1
  ext j
  simp only [mem_filter, mem_range, UInt8.toNat_and, hmask, Nat.testBit_and,
    Nat.testBit_two_pow_sub_one, Bool.and_eq_true, decide_eq_true_eq]
  constructor
  · rintro ⟨hj, hbit, hjt⟩
    rw [map.byte_testBit h hj] at hbit
    exact ⟨hjt, hbit⟩
  · rintro ⟨hjt, hbit⟩
    rw [map.byte_testBit h (by omega)]
    exact ⟨by omega, hbit, hjt⟩

theorem fold_popCount (map : Bitmap) (n : ℕ) (h : n ≤ map.length) :
    Nat.fold n (fun k hk ones => ones + popCount (map.byte k (Nat.lt_of_lt_of_le hk h))) 0 =
      Nat.count (fun i => map.isSet i = true) (8 * n) := by
  induction n with
  | zero => simp
  | succ n ih =>
      have hstep : 8 * (n + 1) = 8 * n + 8 := rfl
      rw [Nat.fold_succ, ih (Nat.le_of_succ_le h), map.popCount_byte h, hstep, Nat.count_add]

theorem countOnes_eq_card (map : Bitmap) : map.countOnes = map.setUnits.card := by
  have hwhole : map.units / 8 ≤ map.length := by
    have := map.units_le
    omega
  have hfull := map.fold_popCount (map.units / 8) hwhole
  rw [setUnits, ← Nat.count_eq_card_filter_range, countOnes]
  simp only [hfull]
  split
  · next hzero =>
      have hunits : 8 * (map.units / 8) = map.units := by omega
      rw [hunits]
  · next hrest =>
      have hunits : 8 * (map.units / 8) + map.units % 8 = map.units := Nat.div_add_mod _ _
      rw [map.popCount_byte_and_mask _ (Nat.mod_lt _ (by decide)), ← Nat.count_add, hunits]

theorem countZeros_eq (map : Bitmap) :
    map.countZeros = .ok (map.units - map.setUnits.card) := by
  rw [countZeros, Word.sub_eq_ok_iff, countOnes_eq_card]
  exact ⟨map.card_setUnits_le, rfl⟩

/-! ## Marking a run -/

theorem setUnits_fill_true
    (map : Bitmap) (start stop : ℕ) (h : stop ≤ map.units) :
    (map.fill start stop h true).setUnits = map.setUnits ∪ Ico start stop := by
  ext i
  simp only [mem_setUnits, (map.sameShape_fill start stop h true).units, isSet_fill, mem_union,
    mem_Ico]
  constructor
  · rintro ⟨hi, hset⟩
    by_cases hrun : start ≤ i ∧ i < stop
    · exact Or.inr hrun
    · rw [if_neg hrun] at hset
      exact Or.inl ⟨hi, hset⟩
  · rintro (⟨hi, hset⟩ | hrun)
    · exact ⟨hi, by rw [hset, ite_self]⟩
    · exact ⟨by omega, if_pos hrun⟩

theorem setUnits_fill_false
    (map : Bitmap) (start stop : ℕ) (h : stop ≤ map.units) :
    (map.fill start stop h false).setUnits = map.setUnits \ Ico start stop := by
  ext i
  simp only [mem_setUnits, (map.sameShape_fill start stop h false).units, isSet_fill, mem_sdiff,
    mem_Ico]
  constructor
  · rintro ⟨hi, hset⟩
    by_cases hrun : start ≤ i ∧ i < stop
    · rw [if_pos hrun] at hset
      exact absurd hset Bool.false_ne_true
    · rw [if_neg hrun] at hset
      exact ⟨⟨hi, hset⟩, hrun⟩
  · rintro ⟨⟨hi, hset⟩, hrun⟩
    exact ⟨hi, by rw [if_neg hrun, hset]⟩

end KernelMemory.Bitmap
