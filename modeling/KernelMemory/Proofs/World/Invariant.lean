import KernelMemory.Proofs.World.Changes

/-!
# What every run keeps

Two invariants of runs.  `Orderly` holds whatever clients store: frames have
one owner each, and the byte counter follows the region records.  `Tracked`
holds under the discipline: the heap's maps describe the ledger.  Each is shown
for a fresh world and for every step, and so for every reachable world.
-/

namespace KernelMemory

open Arena Finset Program RegionTable

/-! ## The byte counter -/

namespace Arena

variable {arena arena' : Arena} {units align slot first : ℕ} {region : Region}

/-- The byte counter follows the records of the regions. -/
def Counted (arena : Arena) : Prop :=
  arena.heap.allocatedBytes.value =
    UInt64.ofNat (16 * total Region.used arena.heap.regions)

theorem Places.counted
    (hplaces : arena.Places arena' units align slot region first) (h : arena.Counted) :
    arena'.Counted := by
  have hset := total_set Region.used (some (region.withBlock units)) hplaces.has
  have hused : (region.withBlock units).used = region.used + units := rfl
  rw [Option.elim_some, Option.elim_some, hused] at hset
  have htotal : 16 * total Region.used
        (arena.heap.regions.set slot (some (region.withBlock units))) =
      16 * total Region.used arena.heap.regions + 16 * units := by
    omega
  rw [Counted] at h ⊢
  rw [hplaces.heap]
  change arena.heap.allocatedBytes.value + UInt64.ofNat (16 * units) = UInt64.ofNat
    (16 * total Region.used (arena.heap.regions.set slot (some (region.withBlock units))))
  rw [htotal, UInt64.ofNat_add, h]

theorem Leases.counted
    {count index : ℕ} (hleases : arena.Leases arena' count slot index region)
    (h : arena.Counted) : arena'.Counted := by
  have hset := total_set Region.used (some region) (Heap.emptySlot?_spec hleases.empty).1
  rw [Option.elim_some, hleases.used] at hset
  rw [Counted] at h ⊢
  rw [hleases.heap]
  change arena.heap.allocatedBytes.value = UInt64.ofNat
    (16 * total Region.used (arena.heap.regions.set slot (some region)))
  rw [h]
  exact congrArg (fun n => UInt64.ofNat (16 * n)) hset.symm

theorem counted_of_freed
    {n : ℕ} (hhas : Has arena.heap.regions slot region) (hheld : n ≤ region.used)
    (hheap : arena'.heap =
      (arena.heap.setSlot slot (some (region.withoutBlock n))).discounting n)
    (h : arena.Counted) : arena'.Counted := by
  have hset := total_set Region.used (some (region.withoutBlock n)) hhas
  have hused : (region.withoutBlock n).used = region.used - n := rfl
  rw [Option.elim_some, Option.elim_some, hused] at hset
  have htotal : 16 * total Region.used arena.heap.regions =
      16 * total Region.used (arena.heap.regions.set slot (some (region.withoutBlock n))) +
        16 * n := by
    omega
  rw [Counted] at h ⊢
  rw [hheap]
  change arena.heap.allocatedBytes.value - UInt64.ofNat (16 * n) = UInt64.ofNat
    (16 * total Region.used (arena.heap.regions.set slot (some (region.withoutBlock n))))
  rw [h, htotal, UInt64.ofNat_add, UInt64.add_sub_cancel]

end Arena

namespace World

variable {w w' : World} {rules : Rules}

/-! ## With any stores -/

/-- What holds whatever clients store. -/
structure Orderly (w : World) : Prop where
  locks : ∀ name, w.machine.locks.IsFree name
  framed : w.arena.Framed (w.held ∪ w.abandoned)
  counted : w.arena.Counted
  apart : Disjoint w.held w.abandoned

theorem Fresh.pool_sound (h : w.Fresh) : w.frames.Sound ∧ w.frames.leasedFrames = ∅ := by
  obtain ⟨base, totalMemory, storage, hcreate⟩ := h.pool
  exact FramePool.sound_of_create hcreate

theorem Fresh.orderly (h : w.Fresh) : w.Orderly := by
  obtain ⟨hsound, hleased⟩ := h.pool_sound
  obtain ⟨map, hheap⟩ := h.heap
  have hreaches := h.reaches
  rw [hheap] at hreaches
  refine ⟨h.locks, ?_, ?_, ?_⟩
  · have hframed := framed_of_empty hheap hsound hreaches
    change w.arena.Framed w.frames.leasedFrames at hframed
    rwa [h.held, h.abandoned, empty_union, ← hleased]
  · change w.heap.allocatedBytes.value = UInt64.ofNat (16 * total Region.used w.heap.regions)
    rw [hheap, Heap.empty, total_replicate_none]
    rfl
  · rw [h.held]
    exact disjoint_empty_left _

/-- The frames under a heap stay where they are. -/
theorem Change.base_eq
    {arena' : Arena} {ledger' : Finset Block} {held' : Finset ℕ}
    (h : w.Change arena' ledger' held') : arena'.frames.base = w.frames.base := by
  cases h with
  | kept => rfl
  | allocated request allocates =>
      cases allocates with
      | placed before places => rw [places.frames]
      | grown full size leases places =>
          obtain ⟨hinside, hframes⟩ := leases.frames
          rw [places.frames, hframes]
          rfl
  | freed frees =>
      cases frees with
      | freed has address removal held frames heap => rw [frames]
  | overdrawn frees =>
      cases frees with
      | overdrawn has address removal held => rfl
  | released framed released => exact released.base
  | leased inside free => rfl
  | returned inside leased owned => rfl

/-- Clients go on seeing memory as before. -/
theorem Change.map_eq
    {arena' : Arena} {ledger' : Finset Block} {held' : Finset ℕ}
    (h : w.Change arena' ledger' held') : arena'.heap.map = w.heap.map := by
  cases h with
  | kept => rfl
  | allocated request allocates => exact allocates.map_eq
  | freed frees =>
      cases frees with
      | freed has address removal held frames heap =>
          rw [heap]
          rfl
  | overdrawn frees =>
      cases frees with
      | overdrawn has address removal held => rfl
  | released framed released => exact released.map
  | leased inside free => rfl
  | returned inside leased owned => rfl

theorem Change.framed
    {arena' : Arena} {ledger' : Finset Block} {held' : Finset ℕ}
    (h : w.Change arena' ledger' held') (hw : w.Orderly) :
    arena'.Framed (held' ∪ w.abandoned) := by
  have hframed := hw.framed
  cases h with
  | kept => exact hframed
  | allocated request allocates => exact allocates.framed request hframed
  | freed frees => exact frees.framed hframed
  | overdrawn frees => exact frees.framed hframed
  | released framed released => exact framed
  | leased inside free =>
      rw [union_right_comm]
      exact hframed.takeFrames inside free
  | returned inside leased owned =>
      have hreturned := hframed.returnFrames inside (owned.trans subset_union_left)
      rwa [union_sdiff_distrib, sdiff_eq_self_of_disjoint (hw.apart.mono_left owned).symm]
        at hreturned

/-- A change keeps the byte counter in step. -/
theorem Change.counted
    {arena' : Arena} {ledger' : Finset Block} {held' : Finset ℕ}
    (h : w.Change arena' ledger' held') (hw : w.Orderly) : arena'.Counted := by
  have hcounted := hw.counted
  cases h with
  | kept => exact hcounted
  | allocated request allocates =>
      cases allocates with
      | placed before places => exact places.counted hcounted
      | grown full size leases places => exact places.counted (leases.counted hcounted)
  | freed frees =>
      cases frees with
      | freed has address removal held frames heap =>
          exact counted_of_freed has held heap hcounted
  | overdrawn frees =>
      cases frees with
      | overdrawn has address removal held => exact hcounted
  | released framed released =>
      rw [Counted, released.allocatedBytes, released.used]
      exact hcounted
  | leased inside free => exact hcounted
  | returned inside leased owned => exact hcounted

/-- Direct callers never come to hold a frame that a heap left behind. -/
theorem Change.apart
    {arena' : Arena} {ledger' : Finset Block} {held' : Finset ℕ}
    (h : w.Change arena' ledger' held') (hw : w.Orderly) : Disjoint held' w.abandoned := by
  cases h with
  | kept => exact hw.apart
  | allocated request allocates => exact hw.apart
  | freed frees => exact hw.apart
  | overdrawn frees => exact hw.apart
  | released framed released => exact hw.apart
  | leased inside free =>
      rw [disjoint_union_left]
      refine ⟨hw.apart, (free.mono_left ?_).symm⟩
      exact subset_union_right.trans hw.framed.outside_subset
  | returned inside leased owned => exact hw.apart.mono_left sdiff_subset

theorem Orderly.called_change
    (hw : w.Orderly) {call : Call} (hpermitted : w.Permits call)
    {result : Result call.Answer} {machine : Machine LockName Arena}
    (hrun : call.program.run w.machine = some (result, machine)) :
    machine.locks = w.machine.locks ∧
      w.Change machine.state (w.ledgerAfter call result) (w.heldAfter call result) := by
  obtain ⟨result', arena', hyields, hchange⟩ := exists_change call hpermitted hw.framed hw.locks
  obtain ⟨rfl, hlocks, hstate⟩ := hyields.eq_of_run hrun
  exact ⟨hlocks, hstate ▸ hchange⟩

theorem Orderly.exists_run (hw : w.Orderly) (call : Call) (hpermitted : w.Permits call) :
    ∃ result machine, call.program.run w.machine = some (result, machine) := by
  obtain ⟨result, arena', hyields, -⟩ := exists_change call hpermitted hw.framed hw.locks
  obtain ⟨machine, hrun, -⟩ := hyields.exists_run
  exact ⟨result, machine, hrun⟩

/-- An allocation of a size and an alignment that the heap supports delivers. -/
theorem Orderly.exists_allocates
    (hw : w.Orderly) {size align : UInt64} (hsize : size ≠ 0) (hpow : align.toNat.isPowerOfTwo)
    (hle : align.toNat ≤ 4096) :
    ∃ result machine, (allocAligned size align).run w.machine = some (result, machine) ∧
      w.arena.Allocates (ceilDiv size.toNat 16) (max (align.toNat / 16) 1) result
        machine.state := by
  rcases allocAligned_cases hw.framed (hw.locks .heap) (hw.locks .frames) size align with
    ⟨hzero, -⟩ | ⟨-, hbad, -⟩ | ⟨-, -, -, result, arena', hallocates, hyields⟩
  · exact absurd hzero hsize
  · exact absurd ⟨hpow, hle⟩ hbad
  · obtain ⟨machine, hrun, -, rfl⟩ := hyields.exists_run
    exact ⟨result, machine, hrun, hallocates⟩

/-- What an allocation that succeeds was asked for, and what it did. -/
theorem Orderly.allocates_of_run
    (hw : w.Orderly) {size align : UInt64} {pa : PhysAddr} {machine : Machine LockName Arena}
    (hrun : (allocAligned size align).run w.machine = some (.ok pa, machine)) :
    size ≠ 0 ∧ align.toNat.isPowerOfTwo ∧ align.toNat ≤ 4096 ∧
      w.arena.Allocates (ceilDiv size.toNat 16) (max (align.toNat / 16) 1) (.ok pa)
        machine.state := by
  rcases allocAligned_cases hw.framed (hw.locks .heap) (hw.locks .frames) size align with
    ⟨-, hyields⟩ | ⟨-, -, hyields⟩ | ⟨hsize, hpow, hle, result, arena', hallocates, hyields⟩
  · cases (hyields.eq_of_run hrun).1
  · cases (hyields.eq_of_run hrun).1
  · obtain ⟨rfl, -, rfl⟩ := hyields.eq_of_run hrun
    exact ⟨hsize, hpow, hle, hallocates⟩

theorem Orderly.teardown_run
    (hw : w.Orderly) {result : Result Unit} {machine : Machine LockName Arena}
    (hrun : teardown.run w.machine = some (result, machine)) :
    machine.locks = w.machine.locks ∧ ∃ outside, machine.state.Framed outside ∧
      Dropped w.arena machine.state (List.range Parameters.maxHeapRegions)
        (w.held ∪ w.abandoned) outside := by
  obtain ⟨arena', outside, hyields, hframed, hdropped⟩ :=
    teardown_cases hw.framed (hw.locks .frames)
  obtain ⟨-, hlocks, hstate⟩ := hyields.eq_of_run hrun
  exact ⟨hlocks, outside, hstate ▸ hframed, hstate ▸ hdropped⟩

theorem Orderly.leased_of_dropped
    {arena' : Arena} {outside : Finset ℕ} (hw : w.Orderly) (hframed : arena'.Framed outside)
    (hdropped : Dropped w.arena arena' (List.range Parameters.maxHeapRegions)
      (w.held ∪ w.abandoned) outside) :
    arena'.frames.leasedFrames = outside ∧ w.held ∪ w.abandoned ⊆ outside := by
  refine ⟨?_, fun i hi => (hdropped.outside_iff i).2 (Or.inl hi)⟩
  ext i
  rw [hframed.leased]
  constructor
  · rintro (hi | ⟨slot, region, hhas, -⟩)
    · exact hi
    · obtain ⟨hhas', hslot⟩ := (hdropped.has_iff slot region).1 hhas
      have hlt := hhas'.lt
      rw [hw.framed.slots] at hlt
      exact absurd (List.mem_range.2 hlt) hslot
  · exact Or.inl

theorem Orderly.restarted
    (hw : w.Orderly) {result : Result Unit} {machine : Machine LockName Arena}
    (hrun : teardown.run w.machine = some (result, machine)) {map : DirectMap}
    (hreaches : map.Reaches w.frames) : (w.restarted machine map).Orderly := by
  obtain ⟨hlocks, outside, hframed, hdropped⟩ := hw.teardown_run hrun
  obtain ⟨hleased, hsubset⟩ := hw.leased_of_dropped hframed hdropped
  refine ⟨?_, ?_, ?_, disjoint_sdiff⟩
  · intro name
    change machine.locks.IsFree name
    rw [hlocks]
    exact hw.locks name
  · change (w.restarted machine map).arena.Framed
      (w.held ∪ machine.state.frames.leasedFrames \ w.held)
    rw [union_sdiff_of_subset (subset_union_left.trans (hsubset.trans hleased.superset))]
    have htotal : machine.state.frames.totalFrames = w.frames.totalFrames := by
      rw [FramePool.totalFrames, FramePool.totalFrames, hdropped.totalMemory]
    exact framed_of_empty rfl hframed.sound (hreaches.of_range hdropped.base htotal)
  · change (Counter.zero).value = UInt64.ofNat (16 * total Region.used (List.replicate _ none))
    rw [total_replicate_none]
    rfl

theorem Orderly.step (hw : w.Orderly) (hstep : w.Step rules w') : w'.Orderly := by
  cases hstep with
  | call permitted run =>
      obtain ⟨hlocks, hchange⟩ := hw.called_change permitted run
      refine ⟨fun name => ?_, hchange.framed hw, hchange.counted hw, hchange.apart hw⟩
      rw [called, hlocks]
      exact hw.locks name
  | store permitted => exact ⟨hw.locks, hw.framed.of_eq rfl rfl rfl, hw.counted, hw.apart⟩
  | drop permitted reaches run => exact hw.restarted run reaches

/-- Every run keeps the owners of frames, whatever clients store. -/
theorem Reachable.orderly (h : Reachable rules w) : w.Orderly := by
  induction h with
  | fresh h => exact h.orderly
  | step _ step ih => exact ih.step step

/-! ## Under the discipline -/

/-- What holds as long as clients store only to what they hold. -/
structure Tracked (w : World) : Prop where
  recorded : w.arena.Recorded w.ledger
  orphans : ∀ b ∈ w.orphans, ∀ qa : PhysAddr, b.Covers qa.val.toNat → w.InFrames w.abandoned qa

theorem Fresh.tracked (h : w.Fresh) : w.Tracked := by
  obtain ⟨map, hheap⟩ := h.heap
  refine ⟨?_, by simp [h.orphans]⟩
  rw [h.ledger]
  exact recorded_of_empty hheap

/-- The maps lie outside the frames that others hold. -/
theorem Orderly.not_inMaps_of_inFrames
    (hw : w.Orderly) {frames : Finset ℕ} (hframes : frames ⊆ w.held ∪ w.abandoned)
    {slot : ℕ} {region : Region} (hhas : Has w.regions slot region) {qa : PhysAddr}
    (hqa : w.InFrames frames qa) : ¬ region.Contains qa := by
  obtain ⟨i, hi, hlow, hhigh⟩ := hqa
  intro hin
  have hrun := (hw.framed.onFrames slot region hhas).mem_frameRun hin hlow hhigh
  exact disjoint_left.1 (hw.framed.outside_apart slot region hhas) (hframes hi) hrun

/-- The maps lie outside every block that clients hold. -/
theorem Tracked.not_inMaps_of_inBlock
    (ht : w.Tracked) (hw : w.Orderly) {slot : ℕ} {region : Region}
    (hhas : Has w.regions slot region) {qa : PhysAddr} (hqa : w.InBlock qa) :
    ¬ region.InMaps qa := by
  obtain ⟨b, hb, hcovers⟩ := hqa
  intro hin
  have hcontains := Region.contains_of_inMaps hin
  rcases mem_union.1 hb with hb | hb
  · obtain ⟨j, r, hr, hholds⟩ := ht.recorded.held b hb
    by_cases hj : j = slot
    · subst hj
      cases hhas.unique hr
      exact hholds.not_inMaps hcovers hin
    · exact hw.framed.not_covers_of_ne hr hhas hj hholds hcontains.1 hcontains.2 hcovers
  · exact hw.not_inMaps_of_inFrames subset_union_right hhas (ht.orphans b hb qa hcovers) hcontains

/-- Every block lies inside the pool, and behind its first byte. -/
theorem Tracked.bounds_of_mem
    (ht : w.Tracked) (hw : w.Orderly) {b : Block} (hb : b ∈ w.ledger) :
    w.frames.base.val.toNat < b.start ∧ b.start < b.stop ∧
      b.stop ≤ w.frames.frameStart w.frames.totalFrames := by
  obtain ⟨slot, region, hhas, hlow, hhigh⟩ := ht.recorded.held b hb
  have hpos := ht.recorded.units_pos b hb
  have hframes := (hw.framed.valid slot region hhas).frames_pos
  have hon : region.OnFrames w.frames := hw.framed.onFrames slot region hhas
  have hinside := hon.inside
  rw [region.bodyStart_eq, hon.start_eq] at hlow
  rw [hon.stop_eq] at hhigh
  simp only [FramePool.frameStart, Block.stop] at hlow hhigh ⊢
  omega

theorem Change.tracked
    {arena' : Arena} {ledger' : Finset Block} {held' : Finset ℕ}
    (h : w.Change arena' ledger' held') (hw : w.Orderly) (ht : w.Tracked) :
    arena'.Recorded ledger' := by
  have hframed := hw.framed
  have hrecorded := ht.recorded
  cases h with
  | kept => exact hrecorded
  | allocated request allocates => exact (allocates.recorded request hframed hrecorded).2
  | freed frees =>
      cases frees with
      | freed has address removal held frames heap =>
          obtain ⟨b, hb, rfl, herased⟩ := hrecorded.freed hframed has address removal heap
          rw [hrecorded.filter_address_ne hb]
          exact herased
  | overdrawn frees =>
      cases frees with
      | overdrawn has address removal held =>
          have := hrecorded.held_of_extent hframed has removal.extent
          omega
  | released framed released => exact released.recorded hrecorded
  | leased inside free => exact hrecorded.of_store hframed rfl fun _ _ _ _ _ => rfl
  | returned inside leased owned => exact hrecorded.of_store hframed rfl fun _ _ _ _ _ => rfl

theorem Tracked.restarted
    (ht : w.Tracked) (hw : w.Orderly) {result : Result Unit} {machine : Machine LockName Arena}
    (hrun : teardown.run w.machine = some (result, machine)) (map : DirectMap) :
    (w.restarted machine map).Tracked := by
  obtain ⟨-, outside, hframed, hdropped⟩ := hw.teardown_run hrun
  obtain ⟨hleased, hsubset⟩ := hw.leased_of_dropped hframed hdropped
  have hstart (i : ℕ) : (w.restarted machine map).frames.frameStart i = w.frames.frameStart i := by
    change machine.state.frames.frameStart i = _
    rw [FramePool.frameStart, FramePool.frameStart, hdropped.base]
  have hmem (i : ℕ) (hi : i ∈ outside) (hheld : i ∉ w.held) :
      i ∈ (w.restarted machine map).abandoned := by
    change i ∈ machine.state.frames.leasedFrames \ w.held
    rw [mem_sdiff, hleased]
    exact ⟨hi, hheld⟩
  refine ⟨recorded_of_empty rfl, fun b hb qa hcovers => ?_⟩
  · rcases mem_union.1 hb with hb | hb
    · obtain ⟨i, hi, hlow, hhigh⟩ := ht.orphans b hb qa hcovers
      refine ⟨i, hmem i (hsubset (mem_union_right _ hi)) ?_, ?_⟩
      · exact fun hheld => disjoint_left.1 hw.apart hheld hi
      · rw [hstart, hstart]
        exact ⟨hlow, hhigh⟩
    · -- a region with a block keeps its frames
      obtain ⟨j, r, hr, hholds⟩ := ht.recorded.held b hb
      obtain ⟨i, hi, hlow, hhigh⟩ := (hw.framed.onFrames j r hr).exists_frame
        (Region.contains_of_covers hholds hcovers)
      have hslot := hr.lt
      rw [hw.framed.slots] at hslot
      have hused : r.used ≠ 0 := by
        have hpos := ht.recorded.units_pos b hb
        have herase := Region.unitsHeld_erase hb hholds
        rw [ht.recorded.used j r hr]
        omega
      have houtside : i ∈ outside := (hdropped.outside_iff i).2
        (Or.inr ⟨j, r, List.mem_range.2 hslot, hr, hused, hi⟩)
      refine ⟨i, hmem i houtside fun hheld => ?_, ?_⟩
      · exact disjoint_left.1 (hw.framed.outside_apart j r hr) (mem_union_left _ hheld) hi
      · rw [hstart, hstart]
        exact ⟨hlow, hhigh⟩

/-- Calls leave frames where they are. -/
theorem Orderly.inFrames_called_iff
    (hw : w.Orderly) {call : Call} (hpermitted : w.Permits call) {result : Result call.Answer}
    {machine : Machine LockName Arena}
    (hrun : call.program.run w.machine = some (result, machine)) {frames : Finset ℕ}
    {qa : PhysAddr} : (w.called call result machine).InFrames frames qa ↔ w.InFrames frames qa := by
  obtain ⟨-, hchange⟩ := hw.called_change hpermitted hrun
  have hstart (i : ℕ) : machine.state.frames.frameStart i = w.frames.frameStart i := by
    rw [FramePool.frameStart, FramePool.frameStart, hchange.base_eq]
  refine exists_congr fun i => and_congr_right fun _ => ?_
  change machine.state.frames.frameStart i ≤ _ ∧ _ < machine.state.frames.frameStart (i + 1) ↔ _
  rw [hstart, hstart]

/-- One step in which nobody stores to the maps keeps the ledger. -/
theorem Tracked.step_offMaps
    (ht : w.Tracked) (hw : w.Orderly) (hstep : w.Step Rules.offMaps w') : w'.Tracked := by
  cases hstep with
  | call permitted run =>
      obtain ⟨-, hchange⟩ := hw.called_change permitted run
      exact ⟨hchange.tracked hw ht, fun b hb qa hcovers =>
        (hw.inFrames_called_iff permitted run).2 (ht.orphans b hb qa hcovers)⟩
  | @store pa byte permitted =>
      refine ⟨ht.recorded.of_store hw.framed rfl fun slot region qa hhas hqa => ?_, ht.orphans⟩
      have hne : qa ≠ pa := by
        rintro rfl
        exact permitted slot region hhas hqa
      change (w.memory.set pa byte).get qa = w.memory.get qa
      rw [Memory.get_set, if_neg hne]
  | drop permitted reaches run => exact ht.restarted hw run _

/-- What clients hold lies outside the maps. -/
theorem Step.offMaps_of_tidy
    (hstep : w.Step Rules.tidy w') (ht : w.Tracked) (hw : w.Orderly) :
    w.Step Rules.offMaps w' := by
  cases hstep with
  | call permitted run => exact .call permitted run
  | store permitted =>
      apply Step.store
      intro slot region hhas
      rcases permitted with hblock | hheld
      · exact ht.not_inMaps_of_inBlock hw hhas hblock
      · intro hin
        exact hw.not_inMaps_of_inFrames subset_union_left hhas hheld
          (Region.contains_of_inMaps hin)
  | drop permitted reaches run => exact .drop permitted reaches run

/-- One step under the discipline keeps the ledger. -/
theorem Tracked.step
    (ht : w.Tracked) (hw : w.Orderly) (hstep : w.Step Rules.tidy w') : w'.Tracked :=
  ht.step_offMaps hw (hstep.offMaps_of_tidy ht hw)

/-- Keeping out of the maps is enough for the ledger. -/
theorem Reachable.tracked_of_offMaps (h : Reachable Rules.offMaps w) : w.Tracked := by
  induction h with
  | fresh h => exact h.tracked
  | step h step ih => exact ih.step_offMaps h.orderly step

theorem Reachable.tracked (h : Reachable Rules.tidy w) : w.Tracked := by
  induction h with
  | fresh h => exact h.tracked
  | step h step ih => exact ih.step h.orderly step

end World

end KernelMemory
