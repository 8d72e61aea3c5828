import KernelMemory.Bitmap.Basic
import KernelMemory.Proofs.Bytes.Bits
import KernelMemory.Proofs.Section

/-!
# Marking runs of units

The units of a bitmap as a function on all indices, and what marking does to
that function.  The main statement is `isSet_fill`: writing whole bytes where
it can and single bits elsewhere, `fill` changes the bits of its run and no
other bit of the storage, padding included.
-/

namespace KernelMemory.Bitmap

/-- Whether bit `i` of the storage is set, be it tracked or not. -/
def isSet (map : Bitmap) (i : Nat) : Bool := Bytes.bit map.storage i

/-- Two bitmaps that differ at most in their bits. -/
structure SameShape (map other : Bitmap) : Prop where
  size : map.storage.size = other.storage.size
  length : map.length = other.length
  units : map.units = other.units

theorem SameShape.refl (map : Bitmap) : SameShape map map := ⟨rfl, rfl, rfl⟩

theorem SameShape.trans
    {a b c : Bitmap} (hab : SameShape a b) (hbc : SameShape b c) :
    SameShape a c :=
  ⟨hab.size.trans hbc.size, hab.length.trans hbc.length, hab.units.trans hbc.units⟩

theorem SameShape.eq_of_isSet
    {a b : Bitmap} (hshape : SameShape a b)
    (h : ∀ i, i < 8 * a.storage.size → a.isSet i = b.isSet i) :
    a = b := by
  cases a with
  | mk storage length units _ _ =>
    cases b with
    | mk storage' length' units' _ _ =>
      obtain ⟨hsize, hlength, hunits⟩ := hshape
      have hstorage : storage = storage' := Bytes.eq_of_bit hsize h
      simp only at hlength hunits
      subst hstorage hlength hunits
      rfl

/-! ## Reading one unit -/

theorem byte_testBit
    (map : Bitmap) {k : Nat} (h : k < map.length) {j : Nat} (hj : j < 8) :
    (map.byte k h).toNat.testBit j = map.isSet (8 * k + j) := by
  have hsize : k < map.storage.size := Nat.lt_of_lt_of_le h map.length_le
  rw [isSet, Bytes.bit_eight_mul_add hsize hj, byte]

theorem bit_eq_isSet (map : Bitmap) {i : Nat} (h : i < map.units) :
    map.bit i h = map.isSet i := by
  have hmod : i % 8 < 8 := Nat.mod_lt _ (by decide)
  have hi : 8 * (i / 8) + i % 8 = i := Nat.div_add_mod i 8
  rw [bit, Bytes.and_mask_ne_zero _ hmod, byte_testBit _ _ hmod, hi]

theorem byte_eq_full_iff (map : Bitmap) {k : Nat} (h : k < map.length) :
    map.byte k h = 0xFF ↔ ∀ i, 8 * k ≤ i → i < 8 * k + 8 → map.isSet i = true := by
  rw [Bytes.eq_full_iff]
  constructor
  · intro hfull i hlow hhigh
    have hi : 8 * k + (i - 8 * k) = i := by omega
    rw [← hi, ← map.byte_testBit h (by omega)]
    exact hfull _ (by omega)
  · intro hset j hj
    rw [map.byte_testBit h hj]
    exact hset _ (by omega) (by omega)

theorem byte_eq_zero_iff (map : Bitmap) {k : Nat} (h : k < map.length) :
    map.byte k h = 0 ↔ ∀ i, 8 * k ≤ i → i < 8 * k + 8 → map.isSet i = false := by
  rw [Bytes.eq_zero_iff]
  constructor
  · intro hzero i hlow hhigh
    have hi : 8 * k + (i - 8 * k) = i := by omega
    rw [← hi, ← map.byte_testBit h (by omega)]
    exact hzero _ (by omega)
  · intro hclear j hj
    rw [map.byte_testBit h hj]
    exact hclear _ (by omega) (by omega)

/-! ## Writing -/

theorem sameShape_setByte
    (map : Bitmap) {k : Nat} (h : k < map.length) (value : UInt8) :
    SameShape (map.setByte k h value) map :=
  ⟨Bytes.size_set _ _ _ _, rfl, rfl⟩

theorem isSet_setByte
    (map : Bitmap) {k : Nat} (h : k < map.length) (value : UInt8) (i : Nat) :
    (map.setByte k h value).isSet i =
      if i / 8 = k then value.toNat.testBit (i % 8) else map.isSet i :=
  Bytes.bit_set _ _ _ _

theorem sameShape_put (map : Bitmap) {i : Nat} (h : i < map.units) (value : Bool) :
    SameShape (map.put i h value) map :=
  sameShape_setByte map (map.div_eight_lt_length h) _

/-- Marking one unit changes its bit and no other. -/
theorem isSet_put
    (map : Bitmap) {i : Nat} (h : i < map.units) (value : Bool) (j : Nat) :
    (map.put i h value).isSet j = if j = i then value else map.isSet j := by
  have hi : i % 8 < 8 := Nat.mod_lt _ (by decide)
  have hj : j % 8 < 8 := Nat.mod_lt _ (by decide)
  rw [put, isSet_setByte]
  by_cases hbyte : j / 8 = i / 8
  · have hold : (map.byte (i / 8) (map.div_eight_lt_length h)).toNat.testBit (j % 8) =
        map.isSet j := by
      rw [map.byte_testBit _ hj, ← hbyte, Nat.div_add_mod]
    have hsame : j % 8 = i % 8 ↔ j = i := by omega
    rw [if_pos hbyte]
    cases value
    · rw [if_neg Bool.false_ne_true, Bytes.testBit_and_not_mask _ hi hj, hold]
      by_cases hji : j = i
      · simp [hji]
      · simp [hsame, hji]
    · rw [if_pos rfl, Bytes.testBit_or_mask _ hi, hold]
      by_cases hji : j = i
      · simp [hji]
      · simp [hsame, hji]
  · have hji : j ≠ i := fun h => hbyte (by rw [h])
    rw [if_neg hbyte, if_neg hji]

theorem sameShape_fill
    (map : Bitmap) (i stop : Nat) (h : stop ≤ map.units) (value : Bool) :
    SameShape (map.fill i stop h value) map := by
  fun_induction fill map i stop h value with
  | case1 map i h hi _ hbyte ih => exact ih.trans (sameShape_setByte _ _ _)
  | case2 map i h hi _ hbyte ih => exact ih.trans (sameShape_put _ _ _)
  | case3 map i h hi => exact .refl map

/-- Marking a run changes the bits of the run and no other. -/
theorem isSet_fill
    (map : Bitmap) (i stop : Nat) (h : stop ≤ map.units) (value : Bool) (j : Nat) :
    (map.fill i stop h value).isSet j =
      if i ≤ j ∧ j < stop then value else map.isSet j := by
  fun_induction fill map i stop h value with
  | case1 map i h hi _ hbyte ih =>
      have hvalue : (if value = true then (0xFF : UInt8) else 0x00).toNat.testBit (j % 8) =
          value := by
        cases value
        · exact Nat.zero_testBit _
        · exact Bytes.testBit_full (Nat.mod_lt _ (by decide))
      refine ih.trans ?_
      rw [dite_eq_ite, isSet_setByte, hvalue]
      split_ifs <;> first | rfl | omega
  | case2 map i h hi _ hbyte ih =>
      rw [ih, isSet_put]
      split_ifs <;> first | rfl | omega
  | case3 map i h hi =>
      rw [if_neg (by omega)]

/-- Clearing a run undoes marking it, if it was clear. -/
theorem fill_fill_of_clear
    (map : Bitmap) {start stop : Nat} (h : stop ≤ map.units)
    (h' : stop ≤ (map.fill start stop h true).units)
    (hclear : ∀ i, start ≤ i → i < stop → map.isSet i = false) :
    (map.fill start stop h true).fill start stop h' false = map := by
  refine ((sameShape_fill _ _ _ h' false).trans (sameShape_fill _ _ _ h true)).eq_of_isSet ?_
  intro i _
  rw [isSet_fill, isSet_fill]
  split_ifs with hrun
  · exact (hclear i hrun.1 hrun.2).symm
  · rfl

/-! ## Checked operations -/

theorem test_of_lt (map : Bitmap) {i : Nat} (h : i < map.units) :
    map.test i = .ok (map.isSet i) := by
  rw [test, dif_pos h, bit_eq_isSet]

theorem perform_set_of_lt (map : Bitmap) {i : Nat} (h : i < map.units) (value : Bool) :
    (set i value).perform map = (.ok (), map.put i h value) := by
  rw [set, Section.perform_get_bind, dif_pos h]
  rfl

theorem perform_set_of_not (map : Bitmap) {i : Nat} (h : ¬ i < map.units) (value : Bool) :
    (set i value).perform map = (.refuse (map.indexRefusal i), map) := by
  rw [set, Section.perform_get_bind, dif_neg h]
  rfl

theorem perform_setRange_of_le
    (map : Bitmap) {start count : Nat} (h : start + count ≤ map.units) (value : Bool) :
    (setRange start count value).perform map =
      (.ok (), map.fill start (start + count) h value) := by
  rw [setRange, Section.perform_get_bind, dif_pos h]
  rfl

theorem perform_setRange_of_not
    (map : Bitmap) {start count : Nat} (h : ¬ start + count ≤ map.units) (value : Bool) :
    (setRange start count value).perform map = (.refuse (map.rangeRefusal start count), map) := by
  rw [setRange, Section.perform_get_bind, dif_neg h]
  rfl

theorem allSet_eq_true_iff (map : Bitmap) (i stop : Nat) (h : stop ≤ map.units) :
    map.allSet i stop h = true ↔ ∀ j, i ≤ j → j < stop → map.isSet j = true := by
  fun_induction allSet map i stop h with
  | case1 i hi hbit ih =>
      rw [bit_eq_isSet] at hbit
      rw [ih]
      constructor
      · intro hrest j hij hj
        rcases Nat.eq_or_lt_of_le hij with heq | hlt
        · rw [← heq]
          exact hbit
        · exact hrest j hlt hj
      · intro hall j hij hj
        exact hall j (by omega) hj
  | case2 i hi hbit =>
      rw [bit_eq_isSet] at hbit
      constructor
      · intro hfalse
        exact absurd hfalse Bool.false_ne_true
      · intro hall
        exact absurd (hall i (Nat.le_refl i) hi) hbit
  | case3 i hi =>
      constructor
      · intro _ j hij hj
        omega
      · intro _
        rfl

theorem isRangeSet_of_le
    (map : Bitmap) {start count : Nat} (h : start + count ≤ map.units) :
    map.isRangeSet start count = .ok (map.allSet start (start + count) h) :=
  dif_pos h

/-! ## Construction -/

theorem bit_clearFront (storage : ByteArray) (n i : Nat) :
    Bytes.bit (clearFront storage n) i = if i / 8 < n then false else Bytes.bit storage i := by
  rw [clearFront, Bytes.bit_append, Bytes.size_replicate, Bytes.bit_replicate_zero]
  by_cases hi : i / 8 < n
  · rw [if_pos hi, if_pos hi]
  · have hrest : 8 * n + (i - 8 * n) = i := by omega
    rw [if_neg hi, if_neg hi, Bytes.bit_extract _ _ (Nat.le_refl _), hrest]
    split_ifs with hsize
    · rfl
    · exact (Bytes.bit_of_le (by omega)).symm

theorem exists_withUnits
    {storage : ByteArray} {n units : Nat} (hn : 0 < n) (hsize : n ≤ storage.size)
    (hunits : 0 < units) (hfit : ceilDiv units 8 ≤ n) :
    ∃ map, (withUnits n units).perform storage = (.ok map, map.storage) ∧ map.units = units ∧
      map.storage = clearFront storage n := by
  have hbound : boundBytes storage n = .ok ⟨n, hsize⟩ := by
    rw [boundBytes, if_neg (by omega), dif_pos (by rwa [Int.toNat_natCast])]
    rfl
  have hguard : units ≠ 0 ∧ ceilDiv units 8 ≤ n := ⟨by omega, hfit⟩
  rw [withUnits, Section.perform_get_bind, Section.perform_lift_bind_ok _ _ hbound]
  simp only [dif_pos hguard]
  exact ⟨_, rfl, rfl, rfl⟩

theorem exists_attach
    (storage : ByteArray) {units : Nat} (hunits : 0 < units)
    (hfit : ceilDiv units 8 ≤ storage.size) :
    ∃ map, (attach units).perform storage = (.ok map, map.storage) ∧ map.units = units ∧
      map.storage = storage := by
  rw [attach, Section.perform_get_bind, dif_pos ⟨by omega, hfit⟩]
  exact ⟨_, rfl, rfl, rfl⟩

end KernelMemory.Bitmap
