import KernelMemory.Proofs.World.FirstFit
import KernelMemory.Proofs.World.Teardown

/-!
# Freeing what was just allocated

A free straight after the allocation of its block.  The extent that the maps
show is the run that was marked, and the marks it clears were clear before, so
the two cancel out; `Alike` says what is left of the difference, which is how
memory is stored.  If the heap had to grow, the new region stays, without
blocks.  The main statement is `Reachable.free_undoes_alloc`.
-/

namespace KernelMemory

open Arena Finset Program RegionTable

namespace Arena

variable {arena arena₁ arena₂ arena' : Arena} {outside : Finset ℕ} {ledger : Finset Block}
variable {units align slot first : ℕ} {region : Region}

/-- Two arenas with the same heap, the same frames and the same bytes. -/
structure Alike (arena arena' : Arena) : Prop where
  heap : arena'.heap = arena.heap
  frames : arena'.frames = arena.frames
  bytes : ∀ qa, arena'.memory.get qa = arena.memory.get qa

theorem Alike.symm (h : arena.Alike arena') : arena'.Alike arena :=
  ⟨h.heap.symm, h.frames.symm, fun qa => (h.bytes qa).symm⟩

theorem Alike.trans (h : arena.Alike arena₁) (h' : arena₁.Alike arena₂) : arena.Alike arena₂ :=
  ⟨h'.heap.trans h.heap, h'.frames.trans h.frames, fun qa => (h'.bytes qa).trans (h.bytes qa)⟩

theorem Alike.admits_iff (h : arena.Alike arena') :
    region.Admits arena'.memory units align ↔ region.Admits arena.memory units align := by
  have hfits (t : ℕ) : region.Fits arena'.memory units align t ↔
      region.Fits arena.memory units align t :=
    Region.fits_congr fun i _ => Memory.bit_congr (h.bytes _)
  constructor
  · rintro ⟨hroom, t, ht⟩
    exact ⟨hroom, t, (hfits t).1 ht⟩
  · rintro ⟨hroom, t, ht⟩
    exact ⟨hroom, t, (hfits t).2 ht⟩

/-! ## Allocating and freeing -/

/-- No block starts in a free run. -/
theorem Recorded.headAt_of_fits
    {t i : ℕ} (h : arena.Recorded ledger) (hhas : Has arena.heap.regions slot region)
    (hfits : region.Fits arena.memory units align t) (hlow : t ≤ i) (hhigh : i < t + units) :
    region.headAt arena.memory i = false := by
  have hinside := hfits.inside
  rw [← Bool.not_eq_true, (h.mapped slot region hhas).head i (by omega)]
  rintro ⟨b, hb, hstart⟩
  exact h.not_covers_of_fits hhas hfits hb hlow hhigh
    (Block.covers_of_start (h.units_pos b hb) hstart)

theorem discounting_counting
    {heap : Heap} (hhas : Has heap.regions slot region) :
    ((((heap.setSlot slot (some (region.withBlock units))).counting units).setSlot slot
      (some ((region.withBlock units).withoutBlock units))).discounting units) = heap := by
  have hregion : (region.withBlock units).withoutBlock units = region := by
    rw [Region.withoutBlock, Region.withBlock, Nat.add_sub_cancel]
  have hregions : (heap.regions.set slot (some (region.withBlock units))).set slot
      (some region) = heap.regions := by
    obtain ⟨hlt, hget⟩ := List.getElem?_eq_some_iff.1 hhas
    rw [List.set_set, ← hget, List.set_getElem_self]
  have hbytes : heap.allocatedBytes.value + UInt64.ofNat (16 * units) -
      UInt64.ofNat (16 * units) = heap.allocatedBytes.value := UInt64.add_sub_cancel _ _
  have hlive : heap.liveAllocations.value + 1 - 1 = heap.liveAllocations.value :=
    UInt64.add_sub_cancel _ _
  calc
    _ = (⟨heap.map, (heap.regions.set slot (some (region.withBlock units))).set slot
        (some region), ⟨heap.allocatedBytes.value + UInt64.ofNat (16 * units) -
          UInt64.ofNat (16 * units)⟩, ⟨heap.liveAllocations.value + 1 - 1⟩⟩ : Heap) := by
      rw [hregion]
      rfl
    _ = heap := by rw [hregions, hbytes, hlive]

/-- Freeing a block straight after it was placed. -/
theorem Places.alike_of_clears
    {slot' first' : ℕ} {region' : Region} (hframed : arena.Framed outside)
    (hrecorded : arena.Recorded ledger) (hunits : 0 < units)
    (hplaces : arena.Places arena₁ units align slot region first)
    (hclears : arena₁.Clears arena₂ (region.block first units) slot' region' first') :
    arena.Alike arena₂ := by
  have hfits := hplaces.placement.least.1
  have hinside := hfits.inside
  have hextent := hclears.removal.extent
  have hregion := (hframed.valid slot region hplaces.has).toAddressable
  -- the block is found in the region and at the unit where it was placed
  obtain ⟨rfl, rfl, rfl⟩ := (hplaces.framed hframed).unit_eq hplaces.has_withBlock hclears.has
    (show first < region.units by omega) (Nat.lt_of_lt_of_le hextent.nonempty hextent.inside)
    (hregion.start_block (by omega) units) hclears.start
  refine ⟨?_, hclears.frames.trans hplaces.frames, ?_⟩
  · rw [hclears.heap, hplaces.heap]
    exact discounting_counting hplaces.has
  · refine hregion.get_eq_of_mapsWritten ⟨fun i hi => ?_, fun i hi => ?_, fun qa hqa => ?_⟩
    · refine (hclears.removal.maps.used i hi).trans ?_
      split_ifs with hrun
      · exact (hfits.clear i hrun.1 hrun.2).symm
      · exact (hplaces.placement.maps.used i hi).trans (if_neg hrun)
    · refine (hclears.removal.maps.head i hi).trans ?_
      split_ifs with hfirst
      · subst hfirst
        exact (hrecorded.headAt_of_fits hplaces.has hfits (le_refl i) (by omega)).symm
      · exact (hplaces.placement.maps.head i hi).trans (if_neg hfirst)
    · exact (hclears.removal.maps.kept qa hqa).trans (hplaces.placement.maps.kept qa hqa)

/-! ## Where a block goes -/

/-- The place that an allocation takes: the lowest one in the first region that
admits the block. -/
structure Offers
    (arena : Arena) (units align slot : ℕ) (region : Region) (first : ℕ) : Prop where
  has : Has arena.heap.regions slot region
  before : ∀ j other, j < slot → Has arena.heap.regions j other →
    ¬ other.Admits arena.memory units align
  admits : region.Admits arena.memory units align
  least : IsLeast {t | region.Fits arena.memory units align t} first

theorem Offers.of_alike
    (h : arena.Offers units align slot region first) (halike : arena.Alike arena') :
    arena'.Offers units align slot region first where
  has := by
    rw [halike.heap]
    exact h.has
  before j other hj hother := by
    rw [halike.heap] at hother
    rw [halike.admits_iff]
    exact h.before j other hj hother
  admits := halike.admits_iff.2 h.admits
  least := by
    have hset : {t | region.Fits arena'.memory units align t} =
        {t | region.Fits arena.memory units align t} :=
      Set.ext fun t => Region.fits_congr fun i _ => Memory.bit_congr (halike.bytes _)
    rw [hset]
    exact h.least

/-- An allocation takes the place that is offered. -/
theorem Allocates.eq_of_offers
    {result : Result PhysAddr} (h : arena.Allocates units align result arena')
    (hoffers : arena.Offers units align slot region first) :
    result = .ok (region.unitAddress first) := by
  cases h with
  | @placed _ slot' first' region' before places =>
      have hadmits : region'.Admits arena.memory units align :=
        ⟨places.room, first', places.placement.least.1⟩
      rcases Nat.lt_trichotomy slot' slot with hlt | rfl | hlt
      · exact absurd hadmits (hoffers.before slot' region' hlt places.has)
      · cases hoffers.has.unique places.has
        rw [hoffers.least.unique places.placement.least]
      · exact absurd hoffers.admits (before slot region hlt hoffers.has)
  | grown full size leases places => exact absurd hoffers.admits (full slot region hoffers.has)
  | refused full stuck => exact absurd hoffers.admits (full slot region hoffers.has)

/-- The arena in which a block is placed: as it is, or with the region that the
heap has grown by. -/
inductive Grown (arena : Arena) (units align slot : ℕ) (region : Region) : Arena → Prop
  | still : Grown arena units align slot region arena
  | leased {arena₁ : Arena} {count index : ℕ} (size : Region.framesFor units align = .ok count)
      (leases : arena.Leases arena₁ count slot index region) :
      Grown arena units align slot region arena₁

/-- An allocation that succeeds takes a place that the heap offers, or offers
once it has grown. -/
theorem Allocates.exists_places
    {pa : PhysAddr} (h : arena.Allocates units align (.ok pa) arena')
    (hreq : Region.Request units align) (hframed : arena.Framed outside)
    (hrecorded : arena.Recorded ledger) :
    ∃ arena₁ slot region first, arena.Grown units align slot region arena₁ ∧
      arena₁.Framed outside ∧ arena₁.Recorded ledger ∧
      arena₁.Places arena' units align slot region first ∧
      arena₁.Offers units align slot region first ∧ pa = region.unitAddress first := by
  cases h with
  | @placed _ slot first region before places =>
      exact ⟨arena, slot, region, first, .still, hframed, hrecorded, places,
        ⟨places.has, before, ⟨places.room, first, places.placement.least.1⟩,
          places.placement.least⟩, rfl⟩
  | @grown arena₁ _ count slot index first region full size leases places =>
      have hpos := hreq.framesFor_pos size
      have hframed₁ := leases.framed hframed hpos
      refine ⟨arena₁, slot, region, first, .leased size leases, hframed₁,
        leases.recorded hpos hframed hrecorded, places,
        ⟨places.has, fun j other hj hother => ?_,
          ⟨places.room, first, places.placement.least.1⟩, places.placement.least⟩, rfl⟩
      -- the regions that were there before are still full
      obtain ⟨rfl, -⟩ | ⟨hne, hold⟩ := leases.adopts.has_iff.1 hother
      · exact absurd hj (Nat.lt_irrefl _)
      · have hkept := hframed₁.get_of_mapsWritten places.has leases.maps hother hne
        have hused (i : ℕ) (hi : i < other.units) :
            other.usedAt arena₁.memory i = other.usedAt arena.memory i :=
          (hframed.valid j other hold).toAddressable.usedAt_congr hkept hi
        rintro ⟨hroom, t, ht⟩
        exact full j other hold ⟨hroom, t, (Region.fits_congr hused).1 ht⟩

/-! ## Growth -/

theorem Leases.of_alike
    {count index : ℕ} (h : arena.Leases arena₁ count slot index region)
    (halike : arena₁.Alike arena₂) : arena.Leases arena₂ count slot index region where
  empty := h.empty
  least := h.least
  size := h.size
  used := h.used
  start := h.start
  maps := ⟨fun i hi => (Memory.bit_congr (halike.bytes _)).trans (h.maps.used i hi),
    fun i hi => (Memory.bit_congr (halike.bytes _)).trans (h.maps.head i hi),
    fun qa hqa => (halike.bytes qa).trans (h.maps.kept qa hqa)⟩
  frames := by
    rw [halike.frames]
    exact h.frames
  heap := halike.heap.trans h.heap

/-- Growth is seen in the leases. -/
theorem Leases.leases_ne
    {count index : ℕ} (h : arena.Leases arena' count slot index region) :
    arena'.heap.leases ≠ arena.heap.leases := by
  have hempty : arena.heap.leases[slot]? = some none := by
    rw [Heap.leases, List.getElem?_map, (Heap.emptySlot?_spec h.empty).1]
    rfl
  intro heq
  have hslot := (List.getElem?_eq_some_iff.1 hempty).1
  rw [← heq, h.leases_eq, List.getElem?_set_self hslot, Option.some.injEq] at hempty
  cases hempty

/-- Growth keeps every byte of the regions that were there before. -/
theorem Leases.get_of_contains
    {count index j : ℕ} {other : Region} {qa : PhysAddr}
    (h : arena.Leases arena' count slot index region) (hframed' : arena'.Framed outside)
    (hother : Has arena.heap.regions j other) (hin : other.Contains qa) :
    arena'.memory.get qa = arena.memory.get qa := by
  have hj := h.adopts.ne_of_has hother
  have hother' := h.adopts.has_iff.2 (Or.inr ⟨hj, hother⟩)
  refine h.maps.kept qa fun hmaps => hj ?_
  exact hframed'.slot_eq_of_contains j slot other region hother' h.adopts.has hin
    (Region.contains_of_inMaps hmaps)

/-- Releasing the region that was just leased undoes the lease. -/
theorem Leases.release
    {count index : ℕ} {locks : Locks LockName}
    (h : arena.Leases arena' count slot index region) (hframed' : arena'.Framed outside)
    (hheap : locks.IsFree .heap) (hframes : locks.IsFree .frames)
    (hoccupied : ∀ j r, Has arena.heap.regions j r → r.used ≠ 0) :
    ∃ released, releaseEmptyRegions.Yields locks arena' (.ok 1) released ∧
      released.heap = arena.heap ∧ released.frames = arena.frames := by
  have hothers (j : ℕ) (r : Region) (hr : Has arena'.heap.regions j r) (hne : j ≠ slot) :
      r.used ≠ 0 := by
    obtain ⟨hj, -⟩ | ⟨-, hold⟩ := h.adopts.has_iff.1 hr
    · exact absurd hj hne
    · exact hoccupied j r hold
  have hslot : slot ∈ List.range Parameters.maxHeapRegions := by
    rw [List.mem_range, ← hframed'.slots]
    exact h.adopts.has.lt
  have hinner : (locks.taking .heap).IsFree .frames := Locks.isFree_taking hframes (by decide)
  have hrun := releaseSlots_of_vacant hframed' hinner h.adopts.has h.used hothers hslot
  refine ⟨_, hrun.withLock hheap, ?_, ?_⟩
  · obtain ⟨hlt, hget⟩ := List.getElem?_eq_some_iff.1 (Heap.emptySlot?_spec h.empty).1
    have hregions : (arena.heap.regions.set slot (some region)).set slot none =
        arena.heap.regions := by
      rw [List.set_set, ← hget, List.set_getElem_self]
    rw [h.heap]
    exact congrArg (fun regions => { arena.heap with regions }) hregions
  · obtain ⟨hinside, hleasing⟩ := h.frames
    have hstart : region.start = arena'.frames.frameStart index := by
      rw [h.start, hleasing]
      rfl
    exact FramePool.returning_leasing h.least.1 hleasing (Region.firstFrame_eq hstart) h.size _

end Arena

namespace World

variable {w w₂ : World} {arena₁ : Arena} {slot first : ℕ} {region : Region}
variable {size align : UInt64} {pa : PhysAddr} {m₁ : Machine LockName Arena}

/-- A free straight after an allocation is granted, and leaves the arena in
which the block was placed. -/
theorem Reachable.exists_free_of_alloc
    (h : Reachable Rules.tidy w)
    (hrun : (allocAligned size align).run w.machine = some (.ok pa, m₁)) :
    ∃ m₂ arena₁ slot region first, (free pa).run m₁ = some (.ok (), m₂) ∧
      Reachable Rules.tidy ((w.called (.allocAligned size align) (.ok pa) m₁).called (.free pa)
        (.ok ()) m₂) ∧
      w.arena.Grown (ceilDiv size.toNat 16) (max (align.toNat / 16) 1) slot region arena₁ ∧
      arena₁.Framed (w.held ∪ w.abandoned) ∧ arena₁.heap.leases = m₁.state.heap.leases ∧
      arena₁.Offers (ceilDiv size.toNat 16) (max (align.toNat / 16) 1) slot region first ∧
      arena₁.Alike m₂.state ∧ pa = region.unitAddress first := by
  obtain ⟨hsize, hpow, hle, hallocates⟩ := h.orderly.allocates_of_run hrun
  have hreq := request_of_layout hsize hpow hle
  obtain ⟨arena₁, slot, region, first, hgrown, hframed₁, hrecorded₁, hplaces, hoffers, rfl⟩ :=
    hallocates.exists_places hreq h.orderly.framed h.tracked.recorded
  -- the world after the allocation knows the block, so the free clears all of it
  have h₁ : Reachable Rules.tidy
      (w.called (.allocAligned size align) (.ok (region.unitAddress first)) m₁) :=
    h.step (.call trivial hrun)
  have hmem : region.block first (ceilDiv size.toNat 16) ∈
      (w.called (.allocAligned size align) (.ok (region.unitAddress first)) m₁).ledger :=
    mem_insert_self _ _
  obtain ⟨m₂, slot', region', first', hfree, hclears⟩ := h₁.tracked.exists_clears h₁.orderly hmem
  exact ⟨m₂, arena₁, slot, region, first, hfree, h₁.step (.call trivial hfree), hgrown, hframed₁,
    hplaces.leases_eq.symm, hoffers,
    hplaces.alike_of_clears hframed₁ hrecorded₁ hreq.units_pos hclears, rfl⟩

theorem Orderly.exists_run_of_offers
    (hw : w.Orderly) (hsize : size ≠ 0) (hpow : align.toNat.isPowerOfTwo)
    (hle : align.toNat ≤ 4096)
    (hoffers : w.arena.Offers (ceilDiv size.toNat 16) (max (align.toNat / 16) 1) slot region
      first) :
    ∃ machine, (allocAligned size align).run w.machine =
      some (.ok (region.unitAddress first), machine) := by
  obtain ⟨result, machine, hrun, hallocates⟩ := hw.exists_allocates hsize hpow hle
  have hresult := hallocates.eq_of_offers hoffers
  exact ⟨machine, hresult ▸ hrun⟩

/-- Where every region held a block, a release takes away what the heap has
grown by. -/
theorem Orderly.exists_release_of_grown
    {arena : Arena} {units align : ℕ} (hw₂ : w₂.Orderly)
    (hgrown : arena.Grown units align slot region arena₁) (halike : arena₁.Alike w₂.arena)
    (hoccupied : ∀ j r, Has arena.heap.regions j r → r.used ≠ 0) :
    ∃ n machine, releaseEmptyRegions.run w₂.machine = some (.ok n, machine) ∧
      machine.state.heap = arena.heap ∧ machine.state.frames = arena.frames := by
  cases hgrown with
  | still =>
      have hused : ∀ j r, Has w₂.arena.heap.regions j r → r.used ≠ 0 := by
        rw [halike.heap]
        exact hoccupied
      obtain ⟨machine, hrelease, -, hstate⟩ :=
        ((releaseSlots_of_occupied hused).withLock (hw₂.locks .heap)).exists_run
      refine ⟨0, machine, hrelease, ?_, ?_⟩
      · rw [hstate, halike.heap]
      · rw [hstate, halike.frames]
  | leased size leases =>
      obtain ⟨released, hyields, hheap, hframes⟩ := (leases.of_alike halike).release hw₂.framed
        (hw₂.locks .heap) (hw₂.locks .frames) hoccupied
      obtain ⟨machine, hrelease, -, rfl⟩ := hyields.exists_run
      exact ⟨1, machine, hrelease, hheap, hframes⟩

/-- In every reachable world, an allocation that succeeds can be undone by
freeing its block.  If the heap did not grow, the free restores the table, the
counters, the frames and every byte of memory; if it did, all that remains is
one region more, without blocks, in the slot that was the lowest empty one.
Either way the same request gets the same address again.  If every region held
a block before, releasing the regions without blocks then restores the heap and
the frames also after growth. -/
theorem Reachable.free_undoes_alloc
    (h : Reachable Rules.tidy w)
    (hrun : (allocAligned size align).run w.machine = some (.ok pa, m₁)) :
    ∃ m₂, (free pa).run m₁ = some (.ok (), m₂) ∧
      (m₁.state.heap.leases = w.heap.leases → w.arena.Alike m₂.state) ∧
      (m₁.state.heap.leases ≠ w.heap.leases → ∃ count slot index region,
        Region.framesFor (ceilDiv size.toNat 16) (max (align.toNat / 16) 1) = .ok count ∧
        w.arena.Leases m₂.state count slot index region ∧
        ∀ j other qa, Has w.regions j other → other.Contains qa →
          m₂.state.memory.get qa = w.memory.get qa) ∧
      (∃ m₃, (allocAligned size align).run m₂ = some (.ok pa, m₃)) ∧
      ((∀ slot region, Has w.regions slot region → region.blocksOf w.ledger ≠ ∅) →
        ∃ n m₃, releaseEmptyRegions.run m₂ = some (.ok n, m₃) ∧
          m₃.state.heap = w.heap ∧ m₃.state.frames = w.frames) := by
  obtain ⟨hsize, hpow, hle, -⟩ := h.orderly.allocates_of_run hrun
  obtain ⟨m₂, arena₁, slot, region, first, hfree, h₂, hgrown, hframed₁, hleases, hoffers, halike,
    rfl⟩ := h.exists_free_of_alloc hrun
  refine ⟨m₂, hfree, fun hsame => ?_, fun hother => ?_, ?_, fun hheld => ?_⟩
  · cases hgrown with
    | still => exact halike
    | leased size leases => exact absurd (hleases.trans hsame) leases.leases_ne
  · cases hgrown with
    | still => exact absurd hleases.symm hother
    | leased size leases =>
        refine ⟨_, slot, _, region, size, leases.of_alike halike, fun j other qa hhas hin => ?_⟩
        exact (halike.bytes qa).trans (leases.get_of_contains hframed₁ hhas hin)
  · exact h₂.orderly.exists_run_of_offers hsize hpow hle (hoffers.of_alike halike)
  · refine h₂.orderly.exists_release_of_grown hgrown halike fun j r hr hzero => ?_
    exact hheld j r hr ((h.tracked.used_eq_zero_iff hr).1 hzero)

/-- A second block beside the first comes and goes without a trace.  The first
block of a heap leaves its region behind, and a release takes that away. -/
theorem exists_alloc_undone :
    ∃ (w v : World) (pa qa : PhysAddr) (m₁ m₂ v₁ v₂ v₃ : Machine LockName Arena) (n : ℕ),
      (Reachable Rules.tidy w ∧ (allocAligned 32 64).run w.machine = some (.ok pa, m₁) ∧
        (free pa).run m₁ = some (.ok (), m₂) ∧ w.arena.Alike m₂.state) ∧
      Reachable Rules.tidy v ∧ (allocAligned 100 16).run v.machine = some (.ok qa, v₁) ∧
        v₁.state.heap.leases ≠ v.heap.leases ∧ (free qa).run v₁ = some (.ok (), v₂) ∧
        releaseEmptyRegions.run v₂ = some (.ok n, v₃) ∧
        v₃.state.heap = v.heap ∧ v₃.state.frames = v.frames := by
  -- the second block goes to a region that is there already
  obtain ⟨w, slot, region, hw, -, hhas, hfits⟩ := exists_run_behind_block
  have hsize : (32 : UInt64) ≠ 0 := by decide
  have hpow : (64 : UInt64).toNat.isPowerOfTwo := ⟨6, rfl⟩
  have hle : (64 : UInt64).toNat ≤ 4096 := by decide
  obtain ⟨result, m₁, hrun, hallocates⟩ := hw.orderly.exists_allocates hsize hpow hle
  have hfirst := hw.tracked.firstFit_of_allocates hw.orderly
    (request_of_layout hsize hpow hle) hallocates
  obtain ⟨pa, hpa, hsame⟩ : ∃ pa, result = .ok pa ∧ m₁.state.heap.leases = w.heap.leases := by
    generalize m₁.state = arena' at hfirst
    cases hfirst with
    | existing has before least address leases frames => exact ⟨_, rfl, leases⟩
    | grown full empty lowest size least start address leases frames =>
        exact absurd hfits (full slot region hhas 72)
    | refused full stuck => exact absurd hfits (full slot region hhas 72)
  subst hpa
  obtain ⟨m₂, hfree, hundone, -⟩ := hw.free_undoes_alloc hrun
  -- the first block of a heap makes it grow
  obtain ⟨v, hfresh, -, hframes, -⟩ := exists_fresh_thirtyTwo (.filled ⟨0x100000⟩ 0 0)
  have hv : Reachable Rules.tidy v := .fresh hfresh
  obtain ⟨map, hheap⟩ := hfresh.heap
  have hsize₁ : (100 : UInt64) ≠ 0 := by decide
  have hpow₁ : (16 : UInt64).toNat.isPowerOfTwo := ⟨4, rfl⟩
  have hroom : 16 ≤ v.frames.totalFrames := by omega
  obtain ⟨qa, v₁, hrun₁, -, slot₁, hhas₁⟩ :=
    hfresh.exists_run hsize₁ hpow₁ (by decide) framesFor_seven hroom
  have hgrown : v₁.state.heap.leases ≠ v.heap.leases := by
    intro heq
    have hlease := Heap.leases_getElem?_of_has hhas₁
    rw [heq, hheap, Heap.leases, Heap.empty, List.map_replicate, List.getElem?_replicate] at hlease
    split_ifs at hlease
    cases hlease
  have hvacant (slot : ℕ) (region : Region) (hhas : Has v.regions slot region) :
      region.blocksOf v.ledger ≠ ∅ := by
    rw [regions, hheap] at hhas
    exact absurd hhas (not_has_replicate _)
  obtain ⟨v₂, hfree₁, -, -, -, hrestored⟩ := hv.free_undoes_alloc hrun₁
  obtain ⟨n, v₃, hrelease, hheap₃, hframes₃⟩ := hrestored hvacant
  exact ⟨w, v, pa, qa, m₁, m₂, v₁, v₂, v₃, n, ⟨hw, hrun, hfree, hundone hsame⟩, hv, hrun₁, hgrown,
    hfree₁, hrelease, hheap₃, hframes₃⟩

end World

end KernelMemory
