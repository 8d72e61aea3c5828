import KernelMemory.FramePool.Basic
import KernelMemory.Proofs.Address.Alignment
import KernelMemory.Proofs.Bitmap.Count
import KernelMemory.Proofs.Bitmap.Search

/-!
# Frames and their addresses

What a well-formed frame pool keeps true of itself, and the two conversions
between frames and addresses, which are inverse to each other.  A pool has no
more frames than a bitmap can search, since frames have 4096 bytes.
-/

namespace KernelMemory.FramePool

open Finset

theorem frameBytes_eq : frameBytes = 4096 := rfl

theorem framesIn_eq (totalMemory : UInt64) : framesIn totalMemory = totalMemory.toNat / 4096 := by
  rw [framesIn, UInt64.toNat_div]
  rfl

def leasedFrames (pool : FramePool) : Finset ℕ := pool.bitmap.setUnits

def frameStart (pool : FramePool) (index : ℕ) : ℕ := pool.base.val.toNat + 4096 * index

/-- A pool whose bitmap tracks its range and whose counter follows the bitmap. -/
structure Sound (pool : FramePool) : Prop where
  units : pool.bitmap.units = pool.totalFrames
  aligned : 4096 ∣ pool.base.val.toNat
  inSpace : pool.base.val.toNat + pool.totalMemory.toNat < UInt64.size
  counted : pool.allocated.value.toNat = pool.leasedFrames.card

theorem mem_leasedFrames {pool : FramePool} {i : ℕ} :
    i ∈ pool.leasedFrames ↔ i < pool.bitmap.units ∧ pool.bitmap.isSet i = true :=
  Bitmap.mem_setUnits

theorem isSet_eq_false_of_leasedFrames_eq_empty
    {pool : FramePool} (hleased : pool.leasedFrames = ∅) {i : ℕ} (hi : i < pool.bitmap.units) :
    pool.bitmap.isSet i = false := by
  rw [← Bool.not_eq_true]
  intro hset
  have hmem : i ∈ pool.leasedFrames := mem_leasedFrames.2 ⟨hi, hset⟩
  rw [hleased] at hmem
  exact notMem_empty i hmem

theorem totalFrames_le (pool : FramePool) : 4096 * pool.totalFrames ≤ pool.totalMemory.toNat := by
  rw [totalFrames, framesIn_eq]
  omega

namespace Sound

variable {pool : FramePool} (hpool : pool.Sound)
include hpool

theorem frameStart_lt {i : ℕ} (hi : i ≤ pool.totalFrames) :
    pool.frameStart i < UInt64.size := by
  have htotal := pool.totalFrames_le
  have hspace := hpool.inSpace
  rw [frameStart]
  omega

theorem units_lt : pool.bitmap.units < 4503599627370496 := by
  have htotal := pool.totalFrames_le
  have hspace := hpool.inSpace
  have hsize : UInt64.size = 18446744073709551616 := rfl
  rw [hpool.units]
  omega

theorem units_le_maxUnits : pool.bitmap.units ≤ Bitmap.maxUnits := by
  have hunits := hpool.units_lt
  have hmax : Bitmap.maxUnits = 9223372036854775808 := rfl
  omega

theorem card_leasedFrames_le : pool.leasedFrames.card ≤ pool.totalFrames := by
  rw [← hpool.units]
  exact pool.bitmap.card_setUnits_le

theorem usage_eq :
    pool.usage = .ok {
      total := pool.totalFrames
      allocated := pool.leasedFrames.card
      free := pool.totalFrames - pool.leasedFrames.card } := by
  have hle := hpool.card_leasedFrames_le
  have hzeros : pool.bitmap.countZeros = .ok (pool.totalFrames - pool.leasedFrames.card) := by
    rw [Bitmap.countZeros_eq, hpool.units, leasedFrames]
  have hsub : Word.sub pool.totalFrames (pool.totalFrames - pool.leasedFrames.card) =
      .ok pool.leasedFrames.card := by
    rw [Word.sub_eq_ok_iff]
    omega
  simp [usage, hzeros, hsub, bind, Except.bind, pure, Except.pure]

end Sound

/-! ## Conversion -/

theorem isAligned_iff {kind : AddressKind} (a : Address kind) :
    a.isAligned .size4K = true ↔ 4096 ∣ a.val.toNat :=
  Address.isAligned_iff

/-- The addresses with an index are the starts of the frames. -/
theorem Sound.frameIndex?_eq_some_iff
    {pool : FramePool} (hpool : pool.Sound) {pa : PhysAddr} {i : ℕ} :
    pool.frameIndex? pa = some i ↔ i < pool.totalFrames ∧ pa.val.toNat = pool.frameStart i := by
  have haligned := hpool.aligned
  have hindex (offset : UInt64) : (offset / Parameters.frameSize).toNat = offset.toNat / 4096 :=
    UInt64.toNat_div offset Parameters.frameSize
  unfold frameIndex?
  constructor
  · intro h
    split at h
    · next hpa =>
        split at h
        · cases h
        · next offset hoffset =>
            rw [Address.offsetFrom?_eq_some_iff] at hoffset
            rw [isAligned_iff] at hpa
            dsimp only at h
            split at h
            · next hlt =>
                cases h
                rw [hindex] at hlt ⊢
                refine ⟨hlt, ?_⟩
                rw [frameStart]
                omega
            · cases h
    · cases h
  · rintro ⟨hi, hpa⟩
    rw [frameStart] at hpa
    have hpa_aligned : 4096 ∣ pa.val.toNat := by omega
    have hoffset : pa.offsetFrom? pool.base = some (UInt64.ofNat (4096 * i)) := by
      rw [Address.offsetFrom?_eq_some_iff, UInt64.toNat_ofNat_of_lt' (by
        have := hpool.frameStart_lt (Nat.le_of_lt hi)
        rw [frameStart] at this
        omega)]
      exact hpa
    have hdiv : (UInt64.ofNat (4096 * i) / Parameters.frameSize).toNat = i := by
      rw [hindex, UInt64.toNat_ofNat_of_lt' (by
        have := hpool.frameStart_lt (Nat.le_of_lt hi)
        rw [frameStart] at this
        omega)]
      omega
    rw [if_pos ((isAligned_iff pa).2 hpa_aligned), hoffset]
    simp only [hdiv, hi, ↓reduceIte]

theorem Sound.addressOf_eq
    {pool : FramePool} (hpool : pool.Sound) {i : ℕ} (hi : i < pool.totalFrames) :
    ∃ pa : PhysAddr, pool.addressOf i = .ok pa ∧ pa.val.toNat = pool.frameStart i := by
  have hstart := hpool.frameStart_lt (Nat.le_of_lt hi)
  have hsum : pool.base.val.toNat + i * frameBytes = pool.frameStart i := by
    rw [frameStart, frameBytes_eq]
    omega
  have hmul : Word.mul i frameBytes = .ok (i * frameBytes) := by
    rw [Word.mul_eq_ok_iff]
    have : Word.count = UInt64.size := rfl
    omega
  have hadd : Word.add pool.base.val.toNat (i * frameBytes) = .ok (pool.frameStart i) := by
    rw [Word.add_eq_ok_iff]
    have : Word.count = UInt64.size := rfl
    omega
  refine ⟨⟨UInt64.ofNat (pool.frameStart i)⟩, ?_, UInt64.toNat_ofNat_of_lt' hstart⟩
  simp [addressOf, hmul, hadd, bind, Except.bind, pure, Except.pure]

/-! ## Construction -/

/-- The ranges that a pool can manage with some storage. -/
structure Usable (base : PhysAddr) (totalMemory : UInt64) (storage : ByteArray) : Prop where
  aligned : 4096 ∣ base.val.toNat
  inSpace : base.val.toNat + totalMemory.toNat < UInt64.size
  nonempty : 0 < framesIn totalMemory
  tracked : bitmapBytesFor totalMemory ≤ storage.size

/-- A pool is created exactly for the usable ranges; storage that is not used is
not written. -/
theorem perform_creating_cases (base : PhysAddr) (totalMemory : UInt64) (storage : ByteArray) :
    (Usable base totalMemory storage ∧
      ∃ pool, (creating base totalMemory).perform storage = (.ok pool, pool.bitmap.storage) ∧
        pool.base = base ∧ pool.totalMemory = totalMemory ∧ pool.allocated = .zero ∧
        pool.bitmap.units = framesIn totalMemory ∧
        pool.bitmap.storage = Bitmap.clearFront storage (bitmapBytesFor totalMemory)) ∨
    (¬ Usable base totalMemory storage ∧
      ∃ why, (creating base totalMemory).perform storage =
        (.refuse (.invalidArgument why), storage)) := by
  have hcheck : (base.checkedAdd? totalMemory).isNone = true ↔
      ¬ base.val.toNat + totalMemory.toNat < UInt64.size := by
    unfold Address.checkedAdd?
    split_ifs with h <;> simp [h]
  have haligned : base.isAligned .size4K = false ↔ ¬ 4096 ∣ base.val.toNat := by
    rw [← isAligned_iff, Bool.not_eq_true]
  rw [creating, Section.perform_get_bind]
  simp only [haligned, hcheck]
  by_cases hbase : 4096 ∣ base.val.toNat
  swap
  · rw [if_pos hbase]
    exact Or.inr ⟨fun h => hbase h.aligned, _, rfl⟩
  by_cases hspace : base.val.toNat + totalMemory.toNat < UInt64.size
  swap
  · rw [if_neg (not_not.2 hbase), if_pos hspace]
    exact Or.inr ⟨fun h => hspace h.inSpace, _, rfl⟩
  by_cases hzero : framesIn totalMemory = 0
  · rw [if_neg (not_not.2 hbase), if_neg (not_not.2 hspace), if_pos hzero]
    exact Or.inr ⟨fun h => Nat.ne_of_gt h.nonempty hzero, _, rfl⟩
  by_cases hsmall : storage.size < bitmapBytesFor totalMemory
  · rw [if_neg (not_not.2 hbase), if_neg (not_not.2 hspace), if_neg hzero, if_pos hsmall]
    exact Or.inr ⟨fun h => Nat.not_lt.2 h.tracked hsmall, _, rfl⟩
  have hpos : 0 < framesIn totalMemory := Nat.pos_of_ne_zero hzero
  have hbytes : 0 < bitmapBytesFor totalMemory := by
    rw [bitmapBytesFor, ceilDiv]
    omega
  obtain ⟨map, hmap, hunits, hstorage⟩ :=
    Bitmap.exists_withUnits hbytes (Nat.le_of_not_lt hsmall) hpos (Nat.le_refl _)
  refine Or.inl ⟨⟨hbase, hspace, hpos, Nat.le_of_not_lt hsmall⟩,
    ⟨base, totalMemory, map, .zero⟩, ?_, rfl, rfl, rfl, hunits, hstorage⟩
  rw [if_neg (not_not.2 hbase), if_neg (not_not.2 hspace), if_neg hzero, if_neg hsmall,
    Section.perform_bind_ok hmap]
  rfl

theorem create_cases (base : PhysAddr) (totalMemory : UInt64) (storage : ByteArray) :
    (Usable base totalMemory storage ∧
      ∃ pool, create base totalMemory storage = .ok pool ∧ pool.base = base ∧
        pool.totalMemory = totalMemory ∧ pool.allocated = .zero ∧
        pool.bitmap.units = framesIn totalMemory ∧
        pool.bitmap.storage = Bitmap.clearFront storage (bitmapBytesFor totalMemory)) ∨
    (¬ Usable base totalMemory storage ∧
      ∃ why, create base totalMemory storage = .refuse (.invalidArgument why)) := by
  rw [create]
  rcases perform_creating_cases base totalMemory storage with
    ⟨husable, pool, hrun, hpool⟩ | ⟨hunusable, why, hrun⟩
  · exact Or.inl ⟨husable, pool, by rw [hrun], hpool⟩
  · exact Or.inr ⟨hunusable, why, by rw [hrun]⟩

theorem Usable.exists_pool
    {base : PhysAddr} {totalMemory : UInt64} {storage : ByteArray}
    (h : Usable base totalMemory storage) :
    ∃ pool, create base totalMemory storage = .ok pool ∧ pool.base = base ∧
      pool.totalMemory = totalMemory := by
  rcases create_cases base totalMemory storage with
    ⟨-, pool, hcreate, hbase, htotal, -⟩ | ⟨hnot, -⟩
  · exact ⟨pool, hcreate, hbase, htotal⟩
  · exact absurd h hnot

/-- Thirty-two frames can be tracked in four bytes. -/
theorem usable_thirtyTwo : Usable ⟨0x100000⟩ 0x20000 (Bytes.replicate 4 0) :=
  ⟨by decide, by decide, by decide, by decide⟩

/-- A new pool is well-formed, and all of its frames are free. -/
theorem sound_of_create
    {base : PhysAddr} {totalMemory : UInt64} {storage : ByteArray} {pool : FramePool}
    (h : create base totalMemory storage = .ok pool) :
    pool.Sound ∧ pool.leasedFrames = ∅ := by
  rcases create_cases base totalMemory storage with
    ⟨husable, pool', hcreate, hbase, htotal, hallocated, hunits, hstorage⟩ | ⟨-, why, hcreate⟩
  · rw [h] at hcreate
    cases hcreate
    have hfree : pool.leasedFrames = ∅ := by
      rw [eq_empty_iff_forall_notMem]
      intro i hi
      obtain ⟨hlt, hset⟩ := mem_leasedFrames.1 hi
      have hbyte : i / 8 < bitmapBytesFor totalMemory := by
        rw [hunits] at hlt
        rw [bitmapBytesFor, ceilDiv]
        omega
      rw [Bitmap.isSet, hstorage, Bitmap.bit_clearFront, if_pos hbyte] at hset
      cases hset
    refine ⟨⟨?_, ?_, ?_, ?_⟩, hfree⟩
    · rw [hunits, totalFrames, htotal]
    · rw [hbase]
      exact husable.aligned
    · rw [hbase, htotal]
      exact husable.inSpace
    · rw [hallocated, hfree]
      rfl
  · rw [h] at hcreate
    cases hcreate

/-! ## Marking a run -/

def leasing (pool : FramePool) (index count : ℕ) (h : index + count ≤ pool.bitmap.units) :
    FramePool :=
  { pool with
    bitmap := pool.bitmap.fill index (index + count) h true
    allocated := (pool.allocated.add (UInt64.ofNat count)).2 }

def returning (pool : FramePool) (index count : ℕ) (h : index + count ≤ pool.bitmap.units) :
    FramePool :=
  { pool with
    bitmap := pool.bitmap.fill index (index + count) h false
    allocated := (pool.allocated.sub (UInt64.ofNat count)).2 }

section Marks

variable {pool : FramePool} {index count : ℕ} {h : index + count ≤ pool.bitmap.units}

@[simp] theorem totalFrames_leasing :
    (pool.leasing index count h).totalFrames = pool.totalFrames := rfl

@[simp] theorem totalFrames_returning :
    (pool.returning index count h).totalFrames = pool.totalFrames := rfl

theorem leasedFrames_leasing :
    (pool.leasing index count h).leasedFrames =
      pool.leasedFrames ∪ Ico index (index + count) :=
  Bitmap.setUnits_fill_true _ _ _ h

theorem leasedFrames_returning :
    (pool.returning index count h).leasedFrames =
      pool.leasedFrames \ Ico index (index + count) :=
  Bitmap.setUnits_fill_false _ _ _ h

theorem Sound.leasing
    (hpool : pool.Sound) (hfree : Disjoint pool.leasedFrames (Ico index (index + count))) :
    (pool.leasing index count h).Sound where
  units := by
    rw [totalFrames_leasing, ← hpool.units]
    exact (pool.bitmap.sameShape_fill _ _ h true).units
  aligned := hpool.aligned
  inSpace := hpool.inSpace
  counted := by
    have hcard := card_union_of_disjoint hfree
    have hlt := hpool.units_lt
    rw [Nat.card_Ico] at hcard
    rw [leasedFrames_leasing, hcard]
    change (pool.allocated.value + UInt64.ofNat count).toNat = _
    rw [UInt64.toNat_add, UInt64.toNat_ofNat_of_lt' (by
      have hsize : UInt64.size = 18446744073709551616 := rfl
      omega), hpool.counted]
    have hsum : pool.leasedFrames.card ≤ pool.bitmap.units := pool.bitmap.card_setUnits_le
    omega

theorem Sound.returning
    (hpool : pool.Sound) (hleased : Ico index (index + count) ⊆ pool.leasedFrames) :
    (pool.returning index count h).Sound where
  units := by
    rw [totalFrames_returning, ← hpool.units]
    exact (pool.bitmap.sameShape_fill _ _ h false).units
  aligned := hpool.aligned
  inSpace := hpool.inSpace
  counted := by
    have hcard := card_sdiff_of_subset hleased
    have hle := card_le_card hleased
    have hlt := hpool.units_lt
    rw [Nat.card_Ico] at hcard hle
    rw [leasedFrames_returning, hcard]
    have hcount : (UInt64.ofNat count).toNat = count := UInt64.toNat_ofNat_of_lt' (by
      have hsize : UInt64.size = 18446744073709551616 := rfl
      omega)
    change (pool.allocated.value - UInt64.ofNat count).toNat = _
    rw [UInt64.toNat_sub_of_le _ _ (by
      rw [UInt64.le_iff_toNat_le, hcount, hpool.counted]
      omega), hcount, hpool.counted]
    omega

end Marks

end KernelMemory.FramePool
