import KernelMemory.Proofs.World.FirstFit

/-!
# Blocks behind pointers

Allocation by pointer says that it failed by giving no pointer, and so must
never give the null pointer for a block.  It does not, because the heap views
the maps of a region before it places a block there, and views nothing at the
null pointer.  The main statement `Reachable.pointers_mirror` is about heaps that
see their pool.  `exists_unanswered_from_null` shows why it has to be: a heap
whose pool is shown from the null pointer on ends at its first request.
-/

namespace KernelMemory

open Arena Finset Program RegionTable

namespace Block

def virtualStart (map : DirectMap) (b : Block) : ℕ := (map.toVirtual b.address).val.toNat

def virtualStop (map : DirectMap) (b : Block) : ℕ := b.virtualStart map + 16 * b.units

end Block

/-! ## Requests by pointer -/

namespace Arena

theorem run_asPointer (request : Program LockName Arena PhysAddr) (m : Machine LockName Arena) :
    (asPointer request).run m = (request.run m).map fun (result, m') =>
      match result with
      | .ok pa => (.ok (m'.state.heap.map.toVirtual pa).nonNull?, m')
      | .error (.refused _) => (.ok none, m')
      | .error (.fault fault) => (.error (.fault fault), m') := by
  change ((outcome request).bind _).run m = _
  rw [run_bind, run_outcome]
  match request.run m with
  | none => rfl
  | some (.ok pa, m') => rfl
  | some (.error (.refused error), m') => rfl
  | some (.error (.fault fault), m') => rfl

/-- Freeing behind a pointer runs as freeing the address that it leads to. -/
theorem run_freePointer
    {pointer : VirtAddr} (hnull : pointer.isNull = false) (m : Machine LockName Arena) :
    (freePointer pointer).run m = (free (m.state.heap.map.toPhysical pointer)).run m := by
  rw [freePointer, hnull]
  rfl

theorem run_freePointer_null
    {pointer : VirtAddr} (hnull : pointer.isNull = true) (m : Machine LockName Arena) :
    (freePointer pointer).run m = some (.ok (), m) := by
  rw [freePointer, hnull]
  rfl

end Arena

/-! ## A pool at the null pointer -/

namespace Arena

variable {arena : Arena} {locks : Locks LockName} {map : DirectMap} {size align : UInt64}

/-- A region whose first byte is shown at the null pointer cannot be viewed. -/
theorem not_visible_of_null
    {pa : PhysAddr} (hnull : (map.toVirtual pa).isNull = true) (count : ℕ) :
    ¬ Region.Visible ⟨pa, count, 0⟩ map := by
  rintro ⟨hshown, -⟩
  rw [hnull] at hshown
  cases hshown

/-- A heap without regions has no room, whatever it sees. -/
theorem place_of_empty
    {units align : ℕ} (hheap : arena.heap = Heap.empty map) (hreq : Region.Request units align) :
    (place units align).perform arena = (.ok none, arena) := by
  have hnone (slot : ℕ) (region : Region) : ¬ Has arena.heap.regions slot region := by
    rw [hheap]
    exact not_has_replicate _
  rcases perform_placeInTable_cases hreq arena.heap.regions
    (fun slot region hhas => absurd hhas (hnone slot region))
    (fun slot region hhas => absurd hhas (hnone slot region)) arena.memory with
    ⟨slot, region, _, _, hplaced, -⟩ | ⟨-, hrun⟩
  · exact absurd hplaced.has (hnone slot region)
  · rw [place, Section.perform_get_bind, Section.perform_bind_ok (perform_onMemory hrun)]
    rfl

/-- A new heap whose pool is shown from the null pointer on answers no request
that there are frames for. -/
theorem allocAligned_of_null
    {count : ℕ} (hheap : arena.heap = Heap.empty map) (hsound : arena.frames.Sound)
    (hleased : arena.frames.leasedFrames = ∅)
    (hnull : (map.toVirtual arena.frames.base).isNull = true) (hlocks : ∀ name, locks.IsFree name)
    (hsize : size ≠ 0) (hpow : align.toNat.isPowerOfTwo) (hle : align.toNat ≤ 4096)
    (hcount : Region.framesFor (ceilDiv size.toNat 16) (max (align.toNat / 16) 1) = .ok count)
    (hroom : count ≤ arena.frames.totalFrames) :
    ∃ arena', (allocAligned size align).Yields locks arena (.fault .invalidSlice) arena' := by
  have hreq := request_of_layout hsize hpow hle
  have hinner : (locks.taking .heap).IsFree .frames :=
    Locks.isFree_taking (hlocks .frames) (by decide)
  have hempty : arena.heap.emptySlot? = some 0 := by
    rw [hheap]
    rfl
  have hhidden (pa : PhysAddr) (hpa : pa.val.toNat = arena.frames.frameStart 0) :
      ¬ Region.Visible ⟨pa, count, 0⟩ arena.heap.map := by
    obtain rfl : pa = arena.frames.base := Address.eq_of_toNat hpa
    rw [hheap]
    exact not_visible_of_null hnull count
  obtain ⟨arena', hgrow⟩ := grow_of_not_visible hsound hreq hinner hempty hcount
    (hsound.isLeast_fits hleased hroom) hhidden
  have hplace : (placeOrGrow (ceilDiv size.toNat 16) (max (align.toNat / 16) 1)).Yields
      (locks.taking .heap) arena (.fault .invalidSlice) arena' :=
    (yields_critical (place_of_empty hheap hreq)).bind hgrow.bind_error
  have hlimit : ¬ Parameters.frameSize < align := by
    rw [UInt64.lt_iff_toNat_lt, not_lt]
    exact hle
  refine ⟨arena', ?_⟩
  rw [allocAligned, if_neg hsize, if_neg (by tauto)]
  exact (hplace.outcome_fault.bind_error.withLock (hlocks .heap)).bind_error

end Arena

namespace World

/-- Thirty-two frames that are shown from the null pointer on, without a wrap.  A
request for a hundred bytes gets no answer, be it by address or by pointer. -/
theorem exists_unanswered_from_null :
    ∃ (w : World) (m m' : Machine LockName Arena),
      FramePool.create ⟨0x778000000000⟩ 0x20000 (Bytes.replicate 4 0) = .ok w.frames ∧
      w.heap = Heap.empty (.at 0xFFFF888000000000) ∧ (∀ name, w.machine.locks.IsFree name) ∧
      w.heap.map.Spans w.frames ∧ w.heap.map.toVirtual w.frames.base = .zero ∧
      (alloc 100).run w.machine = some (.fault .invalidSlice, m) ∧
      (allocPointer 100).run w.machine = some (.fault .invalidSlice, m') := by
  have husable : FramePool.Usable ⟨0x778000000000⟩ 0x20000 (Bytes.replicate 4 0) :=
    ⟨by decide, by decide, by decide, by decide⟩
  obtain ⟨pool, hcreate, hbase, htotal⟩ := husable.exists_pool
  obtain ⟨hsound, hleased⟩ := FramePool.sound_of_create hcreate
  let w : World := boot pool (.filled ⟨0x778000000000⟩ 0 0) (.at 0xFFFF888000000000)
  have hframes : pool.totalFrames = 32 := by
    rw [FramePool.totalFrames, htotal]
    decide
  have hspans : (DirectMap.at 0xFFFF888000000000).Spans pool := by
    rw [DirectMap.Spans, hframes, hbase]
    decide
  have hzero : (DirectMap.at 0xFFFF888000000000).toVirtual pool.base = .zero := by
    rw [hbase]
    decide
  have hnull : ((DirectMap.at 0xFFFF888000000000).toVirtual pool.base).isNull = true := by
    rw [hzero]
    rfl
  have hlocks : ∀ name, w.machine.locks.IsFree name := Locks.isFree_free .spin
  have hsize : (100 : UInt64) ≠ 0 := by decide
  have hpow : (16 : UInt64).toNat.isPowerOfTwo := ⟨4, rfl⟩
  have hroom : 16 ≤ pool.totalFrames := by omega
  obtain ⟨arena', hyields⟩ : ∃ arena', (allocAligned 100 16).Yields w.machine.locks w.arena
      (.fault .invalidSlice) arena' :=
    allocAligned_of_null rfl hsound hleased hnull hlocks hsize hpow (by decide) framesFor_seven
      hroom
  have hpointer : (allocPointer 100).Yields w.machine.locks w.arena (.fault .invalidSlice)
      arena' := hyields.outcome_fault.bind_error
  obtain ⟨m, hrun, -⟩ := hyields.exists_run
  obtain ⟨m', hrun', -⟩ := hpointer.exists_run
  exact ⟨w, m, m', hcreate, rfl, hlocks, hspans, hzero, hrun, hrun'⟩

/-! ## Pools that are seen -/

variable {w : World} {size align : UInt64} {pa : PhysAddr} {machine : Machine LockName Arena}

theorem Orderly.spans (hw : w.Orderly) : w.heap.map.Spans w.frames :=
  hw.framed.reaches.spans hw.framed.sound

/-- Blocks keep their distance from the start of the pool, and do not wrap. -/
theorem Tracked.virtualStart_eq
    (ht : w.Tracked) (hw : w.Orderly) {b : Block} (hb : b ∈ w.ledger) :
    b.virtualStart w.heap.map =
      (w.heap.map.toVirtual w.frames.base).val.toNat + (b.start - w.frames.base.val.toNat) ∧
    b.virtualStop w.heap.map ≤ UInt64.size := by
  have hspans := hw.spans
  obtain ⟨hlow, hstop, hhigh⟩ := ht.bounds_of_mem hw hb
  have hstart : b.virtualStart w.heap.map =
      (w.heap.map.toVirtual w.frames.base).val.toNat + (b.start - w.frames.base.val.toNat) :=
    hspans.toNat_toVirtual (Nat.le_of_lt hlow) (by
      change b.start < _
      omega)
  refine ⟨hstart, ?_⟩
  rw [DirectMap.Spans] at hspans
  rw [Block.virtualStop, hstart]
  rw [FramePool.frameStart, Block.stop] at hhigh
  omega

/-- Blocks that are apart are seen apart. -/
theorem Tracked.virtual_apart
    (ht : w.Tracked) (hw : w.Orderly) {b c : Block} (hb : b ∈ w.ledger) (hc : c ∈ w.ledger)
    (hne : b ≠ c) :
    b.virtualStop w.heap.map ≤ c.virtualStart w.heap.map ∨
      c.virtualStop w.heap.map ≤ b.virtualStart w.heap.map := by
  obtain ⟨hbstart, -⟩ := ht.virtualStart_eq hw hb
  obtain ⟨hcstart, -⟩ := ht.virtualStart_eq hw hc
  have hblow := (ht.bounds_of_mem hw hb).1
  have hclow := (ht.bounds_of_mem hw hc).1
  have hapart := ht.recorded.apart b hb c hc hne
  simp only [Block.Apart, Block.stop] at hapart
  rw [Block.virtualStop, Block.virtualStop, hbstart, hcstart]
  omega

/-- An allocation by pointer is the allocation by address as clients see it. -/
theorem Orderly.asPointer_cases (hw : w.Orderly) (size align : UInt64) :
    (∃ pa machine, (allocAligned size align).run w.machine = some (.ok pa, machine) ∧
      (w.heap.map.toVirtual pa).isNull = false ∧
      (asPointer (allocAligned size align)).run w.machine =
        some (.ok (some (w.heap.map.toVirtual pa)), machine)) ∨
    ∃ error machine, (allocAligned size align).run w.machine = some (.refuse error, machine) ∧
      (asPointer (allocAligned size align)).run w.machine = some (.ok none, machine) ∧
      machine.locks = w.machine.locks ∧ machine.state = w.arena := by
  rcases allocAligned_yields hw.framed hw.locks size align with
    ⟨pa, arena', hreq, hallocates, hyields⟩ | ⟨error, hyields⟩
  · obtain ⟨machine, hrun, -, rfl⟩ := hyields.exists_run
    have hnull := hallocates.isNull_eq_false hreq hw.framed
    have hpointer : (asPointer (allocAligned size align)).run w.machine =
        some (.ok (machine.state.heap.map.toVirtual pa).nonNull?, machine) := by
      rw [run_asPointer, hrun]
      rfl
    rw [hallocates.map_eq, Address.nonNull?_eq_some hnull] at hpointer
    exact Or.inl ⟨pa, machine, hrun, hnull, hpointer⟩
  · obtain ⟨machine, hrun, hlocks, hstate⟩ := hyields.exists_run
    refine Or.inr ⟨error, machine, hrun, ?_, hlocks, hstate⟩
    rw [run_asPointer, hrun]
    rfl

/-- In every reachable world, allocation by pointer gives no pointer exactly when
allocation by address is refused, which changes nothing, and else a pointer to
the block that allocation by address gives; freeing behind a pointer is freeing
the address it leads to, and freeing the null pointer does nothing.  Clients see
different blocks at different places. -/
theorem Reachable.pointers_mirror (h : Reachable Rules.tidy w) :
    (∀ size, ∃ result machine, (alloc size).run w.machine = some (result, machine) ∧
      ((∃ pa, result = .ok pa ∧ (w.heap.map.toVirtual pa).isNull = false ∧
        (allocPointer size).run w.machine =
          some (.ok (some (w.heap.map.toVirtual pa)), machine)) ∨
      ∃ error, result = .refuse error ∧
        (allocPointer size).run w.machine = some (.ok none, machine) ∧
        machine.locks = w.machine.locks ∧ machine.state = w.arena ∧
        w.ledgerAfter (.allocPointer size) (.ok none) = w.ledger)) ∧
    (∀ pointer : VirtAddr, pointer.isNull = false →
      (freePointer pointer).run w.machine =
        (free (w.heap.map.toPhysical pointer)).run w.machine) ∧
    (∀ pointer : VirtAddr, pointer.isNull = true →
      (freePointer pointer).run w.machine = some (.ok (), w.machine)) ∧
    (∀ b ∈ w.ledger, b.virtualStop w.heap.map ≤ UInt64.size) ∧
    ∀ b ∈ w.ledger, ∀ c ∈ w.ledger, b ≠ c →
      b.virtualStop w.heap.map ≤ c.virtualStart w.heap.map ∨
        c.virtualStop w.heap.map ≤ b.virtualStart w.heap.map := by
  have hw := h.orderly
  have ht := h.tracked
  refine ⟨fun size => ?_, fun pointer hnull => run_freePointer hnull w.machine,
    fun pointer hnull => run_freePointer_null hnull w.machine,
    fun b hb => (ht.virtualStart_eq hw hb).2, fun b hb c hc hne => ht.virtual_apart hw hb hc hne⟩
  rw [allocPointer_eq]
  rcases hw.asPointer_cases size (UInt64.ofNat Parameters.unitBytes) with
    ⟨pa, machine, hrun, hnull, hpointer⟩ | ⟨error, machine, hrun, hpointer, hlocks, hstate⟩
  · exact ⟨_, machine, hrun, Or.inl ⟨pa, rfl, hnull, hpointer⟩⟩
  · exact ⟨_, machine, hrun, Or.inr ⟨error, rfl, hpointer, hlocks, hstate, rfl⟩⟩

/-! ## A pool just behind the null pointer -/

/-- Thirty-two frames that are shown from the second page of virtual memory on,
before and after the first block is allocated. -/
theorem exists_block_at_second_page :
    ∃ (v w : World) (m : Machine LockName Arena), v.Fresh ∧ Reachable Rules.tidy w ∧
      v.heap.map = .at (0x1000 - 0x100000) ∧ v.frames.base = ⟨0x100000⟩ ∧
      (alloc 100).run v.machine = some (.ok ⟨0x100400⟩, m) ∧
      w.heap.map = .at (0x1000 - 0x100000) ∧
      w.ledger = {⟨⟨0x100400⟩, 7⟩} ∧ ∃ slot, Has w.regions slot ⟨⟨0x100000⟩, 16, 7⟩ := by
  obtain ⟨v, hfresh, hbase, hframes, -, hmap⟩ :=
    exists_fresh FramePool.usable_thirtyTwo (.filled ⟨0x100000⟩ 0 0) (.at (0x1000 - 0x100000))
      (by decide) (by decide)
  have hsize : (100 : UInt64) ≠ 0 := by decide
  have hpow : (16 : UInt64).toNat.isPowerOfTwo := ⟨4, rfl⟩
  obtain ⟨pa, m, hrun, hpa, slot, hhas⟩ :=
    hfresh.exists_run hsize hpow (by decide) framesFor_seven (by rw [hframes]; decide)
  obtain rfl : pa = ⟨0x100400⟩ := by
    rw [hbase] at hpa
    exact Address.eq_of_toNat hpa
  have hpermits : v.Permits (.allocAligned 100 16) := trivial
  obtain ⟨-, hchange⟩ := hfresh.orderly.called_change hpermits hrun
  refine ⟨v, v.called (.allocAligned 100 16) (.ok ⟨0x100400⟩) m, m, hfresh,
    .step (.fresh hfresh) (.call hpermits hrun), hmap, hbase, hrun, hchange.map_eq.trans hmap, ?_,
    slot, hbase ▸ hhas⟩
  change insert _ v.ledger = _
  rw [hfresh.ledger]
  rfl

/-- A pool that is shown from the second page of virtual memory on: the first
block is behind the pointer `0x1400`, and the null pointer stands for a refusal
only. -/
theorem exists_mirrored_block :
    ∃ (v w : World) (m m' : Machine LockName Arena),
      (Reachable Rules.tidy v ∧ v.heap.map.toVirtual v.frames.base = ⟨0x1000⟩ ∧
        (alloc 100).run v.machine = some (.ok ⟨0x100400⟩, m) ∧
        (allocPointer 100).run v.machine = some (.ok (some ⟨0x1400⟩), m)) ∧
      Reachable Rules.tidy w ∧ w.ledger = {⟨⟨0x100400⟩, 7⟩} ∧
        (freePointer ⟨0x1400⟩).run w.machine = (free ⟨0x100400⟩).run w.machine ∧
        (allocPointer 0).run w.machine = some (.ok none, m') ∧ m'.state = w.arena := by
  obtain ⟨v, w, m, hfresh, hw, hmapv, hbase, hrun, hmap, hledger, -⟩ := exists_block_at_second_page
  have hv : Reachable Rules.tidy v := .fresh hfresh
  have hstart : v.heap.map.toVirtual v.frames.base = ⟨0x1000⟩ := by
    rw [hmapv, hbase]
    decide
  have hseen : v.heap.map.toVirtual ⟨0x100400⟩ = ⟨0x1400⟩ := by
    rw [hmapv]
    decide
  have hled : w.heap.map.toPhysical ⟨0x1400⟩ = ⟨0x100400⟩ := by
    rw [hmap]
    decide
  have hpointer : (allocPointer 100).run v.machine = some (.ok (some ⟨0x1400⟩), m) := by
    obtain ⟨result, machine, halloc, hcases⟩ := hv.pointers_mirror.1 100
    rw [hrun, Option.some.injEq, Prod.mk.injEq] at halloc
    obtain ⟨rfl, rfl⟩ := halloc
    rcases hcases with ⟨pa, hok, -, hpointer⟩ | ⟨error, hrefused, -⟩
    · cases hok
      rwa [hseen] at hpointer
    · cases hrefused
  obtain ⟨hrequests, hfree, -⟩ := hw.pointers_mirror
  have hfree' := hfree ⟨0x1400⟩ (by decide)
  rw [hled] at hfree'
  obtain ⟨result, m', halloc, ⟨pa, rfl, -⟩ | ⟨error, -, hnone, -, hstate, -⟩⟩ := hrequests 0
  · obtain ⟨hne, -⟩ := hw.orderly.allocates_of_run halloc
    exact absurd rfl hne
  · exact ⟨v, w, m, m', ⟨hv, hstart, hrun, hpointer⟩, hw, hledger, hfree', hnone, hstate⟩

end World

end KernelMemory
