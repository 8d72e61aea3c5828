import KernelMemory.Proofs.World.Invariant

/-!
# The first allocation

Where a run starts, and that it gets somewhere: `Fresh.exists_run` says
that a fresh heap serves every request that its pool has frames for, and at
which address.
-/

namespace KernelMemory.World

open Arena Finset Program RegionTable

variable {w : World} {rules : Rules}

def boot (frames : FramePool) (memory : Memory) (map : DirectMap) : World where
  machine := .fresh .spin { memory, frames, heap := Heap.empty map }
  ledger := ∅
  held := ∅
  orphans := ∅
  abandoned := ∅

theorem fresh_boot
    {base : PhysAddr} {totalMemory : UInt64} {storage : ByteArray} {frames : FramePool}
    (h : FramePool.create base totalMemory storage = .ok frames) (memory : Memory)
    {map : DirectMap} (hreaches : map.Reaches frames) : (boot frames memory map).Fresh where
  pool := ⟨base, totalMemory, storage, h⟩
  heap := ⟨map, rfl⟩
  reaches := hreaches
  locks := Locks.isFree_free .spin
  ledger := rfl
  held := rfl
  orphans := rfl
  abandoned := rfl

/-- Every usable range that a direct map reaches gives a fresh world. -/
theorem exists_fresh
    {base : PhysAddr} {totalMemory : UInt64} {storage : ByteArray}
    (h : FramePool.Usable base totalMemory storage) (memory : Memory) (map : DirectMap)
    (hnull : (map.toVirtual base).isNull = false)
    (hspans : (map.toVirtual base).val.toNat + 4096 * FramePool.framesIn totalMemory ≤
      UInt64.size) :
    ∃ w : World, w.Fresh ∧ w.frames.base = base ∧
      w.frames.totalFrames = FramePool.framesIn totalMemory ∧ w.memory = memory ∧
      w.heap.map = map := by
  obtain ⟨pool, hcreate, rfl, rfl⟩ := h.exists_pool
  have hreaches : map.Reaches pool := DirectMap.Spans.reaches hspans hnull
  exact ⟨boot pool memory map, fresh_boot hcreate memory hreaches, rfl, rfl, rfl, rfl⟩

/-- Thirty-two frames that are seen through the higher half. -/
theorem exists_fresh_thirtyTwo (memory : Memory) :
    ∃ w : World, w.Fresh ∧ w.frames.base = ⟨0x100000⟩ ∧ w.frames.totalFrames = 32 ∧
      w.memory = memory := by
  obtain ⟨w, hfresh, hbase, hframes, hmemory, -⟩ :=
    exists_fresh FramePool.usable_thirtyTwo memory .higherHalf (by decide) (by decide)
  exact ⟨w, hfresh, hbase, hframes.trans (by decide), hmemory⟩

/-- A fresh heap serves every request that its pool has frames for, with the
first block of a region at the start of the pool. -/
theorem Fresh.exists_run
    (h : w.Fresh) {size align : UInt64} {count : ℕ} (hsize : size ≠ 0)
    (hpow : align.toNat.isPowerOfTwo) (hle : align.toNat ≤ 4096)
    (hcount : Region.framesFor (ceilDiv size.toNat 16) (max (align.toNat / 16) 1) = .ok count)
    (hroom : count ≤ w.frames.totalFrames) :
    ∃ pa machine, (allocAligned size align).run w.machine = some (.ok pa, machine) ∧
      pa.val.toNat = w.frames.base.val.toNat +
        16 * (ceilDiv (4 * count) (max (align.toNat / 16) 1) * max (align.toNat / 16) 1) ∧
      ∃ slot, Has machine.state.heap.regions slot
        ⟨w.frames.base, count, ceilDiv size.toNat 16⟩ := by
  have hw := h.orderly
  obtain ⟨hsound, hleased⟩ := h.pool_sound
  have hleast := hsound.isLeast_fits hleased hroom
  have hreq := request_of_layout hsize hpow hle
  obtain ⟨map, hheap⟩ := h.heap
  have hnone (slot : ℕ) (region : Region) : ¬ Has w.regions slot region := by
    rw [regions, hheap]
    exact not_has_replicate _
  obtain ⟨result, machine, hrun, hallocates⟩ := hw.exists_allocates hsize hpow hle
  generalize hstate : machine.state = arena' at hallocates
  cases hallocates with
  | @placed _ slot first region before places => exact absurd places.has (hnone slot region)
  | refused full stuck =>
      exfalso
      rcases stuck with hempty | ⟨count', hcount', hstuck⟩
      · change w.heap.emptySlot? = none at hempty
        rw [hheap] at hempty
        cases hempty
      · rw [hcount] at hcount'
        cases hcount'
        exact hstuck 0 hleast.1
  | @grown arena₁ _ count' slot index first region full size leases places =>
      rw [hcount] at size
      cases size
      have hindex : index = 0 := leases.least.unique hleast
      have hfirst := leases.first_eq hreq hcount places
      have hregion : region = ⟨w.frames.base, count, 0⟩ := by
        have hstart := leases.start
        rw [hindex, FramePool.frameStart, Nat.mul_zero, Nat.add_zero] at hstart
        rw [← leases.size, ← leases.used, ← Address.eq_of_toNat hstart]
      refine ⟨region.unitAddress first, machine, hrun, ?_, slot, ?_⟩
      · have hframed := leases.framed hw.framed (hreq.framesFor_pos hcount)
        rw [places.toNat_unitAddress hframed, Region.unitStart, leases.start, hindex, hfirst]
        rfl
      · have hhas := places.has_withBlock
        rw [hregion, ← hstate, Region.withBlock, Nat.zero_add] at hhas
        exact hhas

theorem Fresh.exists_allocated
    (h : w.Fresh) (rules : Rules) {size align : UInt64} {count : ℕ} (hsize : size ≠ 0)
    (hpow : align.toNat.isPowerOfTwo) (hle : align.toNat ≤ 4096)
    (hcount : Region.framesFor (ceilDiv size.toNat 16) (max (align.toNat / 16) 1) = .ok count)
    (hroom : count ≤ w.frames.totalFrames) :
    ∃ w' pa, w.Step rules w' ∧ w'.ledger = {⟨pa, ceilDiv size.toNat 16⟩} ∧
      pa.val.toNat = w.frames.base.val.toNat +
        16 * (ceilDiv (4 * count) (max (align.toNat / 16) 1) * max (align.toNat / 16) 1) ∧
      ∃ slot, Has w'.regions slot ⟨w.frames.base, count, ceilDiv size.toNat 16⟩ := by
  obtain ⟨pa, machine, hrun, hpa, slot, hhas⟩ := h.exists_run hsize hpow hle hcount hroom
  have hstep : w.Step rules (w.called (.allocAligned size align) (.ok pa) machine) :=
    .call trivial hrun
  refine ⟨_, pa, hstep, ?_, hpa, slot, hhas⟩
  change insert _ w.ledger = _
  rw [h.ledger]
  rfl

/-- A small block takes a region of the least size. -/
theorem framesFor_seven : Region.framesFor 7 1 = .ok 16 := by
  have hreq : Region.Request 7 1 := ⟨by decide, by decide, ⟨0, rfl⟩, by decide⟩
  obtain ⟨count, hcount, hleast, -⟩ := hreq.framesFor_cases
  have hsixteen : IsLeast {n | 16 ≤ n ∧ Region.HasRoom 7 1 n} 16 :=
    ⟨⟨le_refl _, by decide⟩, fun n hn => hn.1⟩
  rw [hcount, hleast.unique hsixteen]

/-- A heap over thirty-two frames of zeroes, before and after its first
allocation. -/
theorem exists_first_block (rules : Rules) :
    ∃ w w' : World, w.Fresh ∧ (∀ pa, w.memory.get pa = 0) ∧ w.Step rules w' ∧
      w'.ledger = {⟨⟨0x100400⟩, 7⟩} ∧ ∃ slot, Has w'.regions slot ⟨⟨0x100000⟩, 16, 7⟩ := by
  obtain ⟨w, hfresh, hbase, hframes, hmemory⟩ := exists_fresh_thirtyTwo (.filled ⟨0x100000⟩ 0 0)
  have hzero (pa : PhysAddr) : w.memory.get pa = 0 := by
    have hsize : (Memory.filled ⟨0x100000⟩ 0 0).bytes.size = 0 := rfl
    rw [hmemory, Memory.get, dif_neg (by omega)]
  have hsize : (100 : UInt64) ≠ 0 := by decide
  have hpow : (16 : UInt64).toNat.isPowerOfTwo := ⟨4, rfl⟩
  have hle : (16 : UInt64).toNat ≤ 4096 := by decide
  obtain ⟨w', pa, hstep, hledger, hpa, slot, hhas⟩ :=
    hfresh.exists_allocated rules hsize hpow hle framesFor_seven (by omega)
  have haddress : pa = ⟨0x100400⟩ := by
    rw [hbase] at hpa
    exact Address.eq_of_toNat hpa
  exact ⟨w, w', hfresh, hzero, hstep, haddress ▸ hledger, slot, hbase ▸ hhas⟩

theorem exists_reachable_block (rules : Rules) :
    ∃ w : World, Reachable rules w ∧ w.ledger = {⟨⟨0x100400⟩, 7⟩} := by
  obtain ⟨w, w', hfresh, -, hstep, hledger, -⟩ := exists_first_block rules
  exact ⟨w', .step (.fresh hfresh) hstep, hledger⟩

/-- The first block of a heap leaves a free run behind it. -/
theorem Reachable.fits_behind_block
    (h : Reachable Rules.tidy w) (hledger : w.ledger = {⟨⟨0x100400⟩, 7⟩}) {slot : ℕ}
    (hhas : Has w.regions slot ⟨⟨0x100000⟩, 16, 7⟩) :
    (⟨⟨0x100000⟩, 16, 7⟩ : Region).Fits w.memory 2 4 72 := by
  refine ⟨by decide, by decide, fun i hlow hhigh => ?_⟩
  have hunits : i < (⟨⟨0x100000⟩, 16, 7⟩ : Region).units := by
    rw [Region.units_eq]
    change i < 256 * 16
    omega
  rw [← Bool.not_eq_true, (h.tracked.recorded.mapped slot _ hhas).used i hunits, hledger]
  rintro (hreserved | ⟨b, hb, hcovers⟩)
  · rw [Region.reserved_eq] at hreserved
    change i < 4 * 16 at hreserved
    omega
  · rw [mem_singleton.1 hb] at hcovers
    change 1049600 ≤ 1048576 + 16 * i ∧ 1048576 + 16 * i < 1049600 + 16 * 7 at hcovers
    omega

theorem exists_run_behind_block :
    ∃ (w : World) (slot : ℕ) (region : Region), Reachable Rules.tidy w ∧
      w.ledger = {⟨⟨0x100400⟩, 7⟩} ∧ Has w.regions slot region ∧ region.Fits w.memory 2 4 72 := by
  obtain ⟨w, w', hfresh, -, hstep, hledger, slot, hhas⟩ := exists_first_block Rules.tidy
  have h' : Reachable Rules.tidy w' := .step (.fresh hfresh) hstep
  exact ⟨w', slot, _, h', hledger, hhas, h'.fits_behind_block hledger hhas⟩

end KernelMemory.World
