import KernelMemory.Proofs.World.Boot
import Mathlib.Data.List.ReduceOption

/-!
# Regions without blocks

What the heap gives back.  A release and a heap that goes away both look at the
record of each region, and at nothing else, to see whether it holds a block;
the frames then go through the frame pool, which could refuse them.  The main
statement `Reachable.returns_vacant` says that this gives back exactly the
regions in which no client holds a block, and that what a heap leaves leased
stays out of reach of every heap and every caller after it.
-/

namespace KernelMemory

open Arena Finset Program RegionTable

namespace RegionTable

variable {table table' : RegionTable} {slot : ℕ} {region : Region}

theorem mem_reduceOption_iff : region ∈ table.reduceOption ↔ ∃ slot, table.Has slot region := by
  rw [List.reduceOption_mem_iff, List.mem_iff_getElem?]
  rfl

/-- The slots of a table, and what they hold, are all there is to it. -/
theorem eq_of_has_iff
    (hlength : table.length = table'.length)
    (hhas : ∀ slot region, table.Has slot region ↔ table'.Has slot region) : table = table' := by
  refine List.ext_getElem hlength fun slot hslot hslot' => Option.ext fun region => ?_
  have hiff := hhas slot region
  rw [Has, Has, List.getElem?_eq_getElem hslot, List.getElem?_eq_getElem hslot',
    Option.some.injEq, Option.some.injEq] at hiff
  exact hiff

theorem has_map_filter_iff (p : Region → Bool) :
    Has (table.map (Option.filter p)) slot region ↔ table.Has slot region ∧ p region = true := by
  rw [Has, Has, List.getElem?_map]
  cases htable : table[slot]? with
  | none => simp
  | some content => simp [Option.filter_eq_some_iff]

/-- The regions that a filter takes off the table, counted. -/
theorem total_map_filter_add_length (p : Region → Bool) :
    total (fun _ => 1) (table.map (Option.filter fun region => !p region)) +
      (table.reduceOption.filter p).length = total (fun _ => 1) table := by
  induction table with
  | nil => rfl
  | cons content rest ih =>
      simp only [total] at ih ⊢
      cases content with
      | none => simpa using ih
      | some region =>
          cases hp : p region <;> simp [hp, Option.filter] at ih ⊢ <;> omega

end RegionTable

namespace Arena

/-- A free that clears all units of a block and no others, and discounts
them. -/
structure Clears
    (arena arena' : Arena) (b : Block) (slot : ℕ) (region : Region) (first : ℕ) : Prop where
  has : Has arena.heap.regions slot region
  start : b.start = region.unitStart first
  removal : region.Removal arena.memory arena'.memory first (first + b.units)
  frames : arena'.frames = arena.frames
  heap : arena'.heap =
    (arena.heap.setSlot slot (some (region.withoutBlock b.units))).discounting b.units

variable {arena arena' : Arena}

theorem Released.heap_eq
    {slots : List ℕ} {n : ℕ} (h : Released arena arena' slots n) :
    arena'.heap = { arena.heap with regions := arena'.heap.regions } :=
  calc
    arena'.heap = ⟨arena'.heap.map, arena'.heap.regions, arena'.heap.allocatedBytes,
        arena'.heap.liveAllocations⟩ := rfl
    _ = _ := by rw [h.map, h.allocatedBytes, h.liveAllocations]

end Arena

namespace World

variable {w w' : World} {slot : ℕ} {region : Region}

/-! ## Vacant regions -/

/-- The regions in which no client holds a block. -/
def vacant (w : World) : List Region :=
  w.regions.reduceOption.filter fun region => region.blocksOf w.ledger = ∅

/-- The table without its vacant regions. -/
def occupied (w : World) : RegionTable :=
  w.regions.map (Option.filter fun region => !decide (region.blocksOf w.ledger = ∅))

/-- The frames of the vacant regions. -/
def vacantFrames (w : World) : Finset ℕ :=
  w.vacant.toFinset.biUnion fun region => region.frameRun w.frames

theorem mem_vacantFrames {i : ℕ} :
    i ∈ w.vacantFrames ↔ ∃ slot region, Has w.regions slot region ∧
      region.blocksOf w.ledger = ∅ ∧ i ∈ region.frameRun w.frames := by
  simp only [vacantFrames, vacant, mem_biUnion, List.mem_toFinset, List.mem_filter,
    mem_reduceOption_iff, decide_eq_true_eq]
  constructor
  · rintro ⟨region, ⟨⟨slot, hhas⟩, hvacant⟩, hi⟩
    exact ⟨slot, region, hhas, hvacant, hi⟩
  · rintro ⟨slot, region, hhas, hvacant, hi⟩
    exact ⟨region, ⟨⟨slot, hhas⟩, hvacant⟩, hi⟩

theorem has_occupied_iff :
    Has w.occupied slot region ↔
      Has w.regions slot region ∧ region.blocksOf w.ledger ≠ ∅ := by
  rw [occupied, has_map_filter_iff, Bool.not_eq_true', decide_eq_false_iff_not]

/-- The record of a region shows whether it is vacant. -/
theorem Tracked.used_eq_zero_iff
    (ht : w.Tracked) (hhas : Has w.regions slot region) :
    region.used = 0 ↔ region.blocksOf w.ledger = ∅ := by
  rw [ht.recorded.used slot region hhas, Region.unitsHeld]
  constructor
  · intro hzero
    refine eq_empty_of_forall_notMem fun b hb => ?_
    have hpos := ht.recorded.units_pos b (Region.mem_blocksOf.1 hb).1
    have hunits := sum_eq_zero_iff.1 hzero b hb
    omega
  · intro hvacant
    rw [hvacant, sum_empty]

theorem Orderly.vacantFrames_subset (hw : w.Orderly) :
    w.vacantFrames ⊆ w.frames.leasedFrames := by
  intro i hi
  obtain ⟨slot, region, hhas, -, hi⟩ := mem_vacantFrames.1 hi
  exact hw.framed.frameRun_subset hhas hi

/-- The leased frames without those of vacant regions are the others' and those
of regions with blocks. -/
theorem Tracked.mem_sdiff_vacantFrames
    (ht : w.Tracked) (hw : w.Orderly) {i : ℕ} :
    i ∈ w.frames.leasedFrames \ w.vacantFrames ↔ i ∈ w.held ∪ w.abandoned ∨
      ∃ slot region, Has w.regions slot region ∧ region.used ≠ 0 ∧
        i ∈ region.frameRun w.frames := by
  rw [mem_sdiff, hw.framed.leased, mem_vacantFrames]
  constructor
  · rintro ⟨hi | ⟨slot, region, hhas, hi⟩, hnot⟩
    · exact Or.inl hi
    · refine Or.inr ⟨slot, region, hhas, fun hused => hnot ?_, hi⟩
      exact ⟨slot, region, hhas, (ht.used_eq_zero_iff hhas).1 hused, hi⟩
  · rintro (hi | ⟨slot, region, hhas, hused, hi⟩)
    · refine ⟨Or.inl hi, ?_⟩
      rintro ⟨slot, region, hhas, -, hrun⟩
      exact disjoint_left.1 (hw.framed.outside_apart slot region hhas) hi hrun
    · refine ⟨Or.inr ⟨slot, region, hhas, hi⟩, ?_⟩
      rintro ⟨other, region', hhas', hvacant, hrun⟩
      have hslot : slot = other := by
        by_contra hne
        exact disjoint_left.1 (hw.framed.apart slot other region region' hhas hhas' hne) hi hrun
      subst hslot
      cases hhas.unique hhas'
      exact hused ((ht.used_eq_zero_iff hhas).2 hvacant)

/-! ## Release -/

/-- An arena that has lost the vacant regions of a world and nothing else. -/
structure Vacated (w : World) (arena' : Arena) : Prop where
  memory : arena'.memory = w.memory
  heap : arena'.heap = { w.heap with regions := w.occupied }
  base : arena'.frames.base = w.frames.base
  totalMemory : arena'.frames.totalMemory = w.frames.totalMemory
  leased : arena'.frames.leasedFrames = w.frames.leasedFrames \ w.vacantFrames
  counted : arena'.frames.allocatedFrames = arena'.frames.leasedFrames.card

/-- A release takes exactly the vacant regions off the table. -/
theorem Tracked.vacated_of_released
    {arena' : Arena} {n : ℕ} (ht : w.Tracked) (hw : w.Orderly)
    (hframed : arena'.Framed (w.held ∪ w.abandoned))
    (hreleased : Released w.arena arena' (List.range Parameters.maxHeapRegions) n) :
    n = w.vacant.length ∧ w.Vacated arena' := by
  have hslot {slot : ℕ} {region : Region} (hhas : Has w.regions slot region) :
      slot ∈ List.range Parameters.maxHeapRegions := by
    rw [List.mem_range, ← hw.framed.slots]
    exact hhas.lt
  have hhas_iff (slot : ℕ) (region : Region) : Has arena'.heap.regions slot region ↔
      Has w.regions slot region ∧ region.used ≠ 0 := by
    rw [hreleased.has_iff]
    exact and_congr_right fun hhas => not_congr (and_iff_right (hslot hhas))
  have hregions : arena'.heap.regions = w.occupied := by
    refine eq_of_has_iff ?_ fun slot region => ?_
    · rw [hframed.slots, occupied, List.length_map, hw.framed.slots]
    · rw [hhas_iff, has_occupied_iff]
      exact and_congr_right fun hhas => not_congr (ht.used_eq_zero_iff hhas)
  refine ⟨?_, hreleased.memory, ?_, hreleased.base, hreleased.totalMemory, ?_, ?_⟩
  · have hcount := hreleased.count
    have hsplit := @total_map_filter_add_length w.regions
      fun region => decide (region.blocksOf w.ledger = ∅)
    rw [hregions, occupied] at hcount
    change _ + w.vacant.length = _ at hsplit
    change _ = total (fun _ => 1) w.regions at hcount
    omega
  · rw [hreleased.heap_eq, hregions]
  · ext i
    rw [hframed.leased, ht.mem_sdiff_vacantFrames hw]
    simp only [hhas_iff, Region.frameRun_of_base hreleased.base, and_assoc]
  · exact hframed.sound.counted

/-- Freeing a block that a client holds clears the whole block. -/
theorem Tracked.exists_clears
    (ht : w.Tracked) (hw : w.Orderly) {b : Block} (hb : b ∈ w.ledger) :
    ∃ machine slot region first, (free b.address).run w.machine = some (.ok (), machine) ∧
      w.arena.Clears machine.state b slot region first := by
  have hframed := hw.framed
  obtain ⟨result, arena', hfrees, hyields⟩ := Arena.free_cases hframed (hw.locks .heap) b.address
  cases hfrees with
  | @freed _ slot first last region has address removal held frames heap =>
      obtain ⟨machine, hrun, -, rfl⟩ := hyields.exists_run
      obtain ⟨c, hc, hstart, hlast, -⟩ := ht.recorded.extent_eq hframed has removal.extent
      have hbc : b = c := ht.recorded.eq_of_start hb hc (address.trans hstart.symm)
      subst hbc
      have hunits : last - first = b.units := by omega
      subst hlast
      rw [hunits] at heap
      exact ⟨machine, slot, region, first, hrun, has, address, removal, frames, heap⟩
  | overdrawn has address removal held =>
      have := ht.recorded.held_of_extent hframed has removal.extent
      omega
  | unknown none =>
      obtain ⟨slot, region, first, hhas, haddress, hlow, hlt, hhead⟩ :=
        ht.recorded.exists_head hframed hb
      rw [none slot region first hhas haddress hlow hlt] at hhead
      cases hhead

theorem Tracked.release_of_occupied
    (ht : w.Tracked) (hw : w.Orderly)
    (hoccupied : ∀ slot region, Has w.regions slot region → region.blocksOf w.ledger ≠ ∅) :
    ∃ machine, releaseEmptyRegions.run w.machine = some (.ok 0, machine) ∧
      machine.locks = w.machine.locks ∧ machine.state = w.arena := by
  have hused (slot : ℕ) (region : Region) (hhas : Has w.arena.heap.regions slot region) :
      region.used ≠ 0 :=
    fun hzero => hoccupied slot region hhas ((ht.used_eq_zero_iff hhas).1 hzero)
  exact ((releaseSlots_of_occupied hused).withLock (hw.locks .heap)).exists_run

/-! ## Heaps that have gone away -/

/-- A byte that is in no frame of a direct caller, and in no region and no block
of the heap. -/
structure Unclaimed (w : World) (qa : PhysAddr) : Prop where
  held : ¬ w.InFrames w.held qa
  regions : ∀ slot region, Has w.regions slot region → ¬ region.Contains qa
  blocks : ∀ b ∈ w.ledger, ¬ b.Covers qa.val.toNat

/-- The frames that a heap left behind are nobody's. -/
theorem Tracked.unclaimed_of_orphan
    (ht : w.Tracked) (hw : w.Orderly) {b : Block} (hb : b ∈ w.orphans) {qa : PhysAddr}
    (hqa : b.Covers qa.val.toNat) : w.Unclaimed qa := by
  have habandoned := ht.orphans b hb qa hqa
  have hregions {slot : ℕ} {region : Region} (hhas : Has w.regions slot region) :
      ¬ region.Contains qa :=
    hw.not_inMaps_of_inFrames subset_union_right hhas habandoned
  refine ⟨?_, fun slot region hhas => hregions hhas, fun c hc hcovers => ?_⟩
  · rintro ⟨i, hi, hlow, hhigh⟩
    obtain ⟨j, hj, hlow', hhigh'⟩ := habandoned
    simp only [FramePool.frameStart] at hlow hhigh hlow' hhigh'
    have hij : i = j := by omega
    exact disjoint_left.1 hw.apart hi (hij ▸ hj)
  · obtain ⟨slot, region, hhas, hholds⟩ := ht.recorded.held c hc
    exact hregions hhas (Region.contains_of_covers hholds hcovers)

/-- Blocks of heaps that have gone away are never forgotten. -/
theorem Step.orphans_subset {rules : Rules} (hstep : w.Step rules w') :
    w.orphans ⊆ w'.orphans := by
  cases hstep with
  | call permitted run => exact Subset.refl _
  | store permitted => exact Subset.refl _
  | drop permitted reaches run => exact subset_union_left

/-- No lease, region or block of a later world has a byte of a block that was
live when its heap went away. -/
theorem Reachable.unclaimed_of_dropped
    (h : Reachable Rules.tidy w) {b : Block} (hb : b ∈ w.orphans)
    (hrun : Relation.ReflTransGen (Step Rules.tidy) w w') {qa : PhysAddr}
    (hqa : b.Covers qa.val.toNat) : w'.Unclaimed qa := by
  have hlater : Reachable Rules.tidy w' ∧ b ∈ w'.orphans := by
    induction hrun with
    | refl => exact ⟨h, hb⟩
    | tail _ hstep ih => exact ⟨ih.1.step hstep, hstep.orphans_subset ih.2⟩
  exact hlater.1.tracked.unclaimed_of_orphan hlater.1.orderly hlater.2 hqa

/-- A heap that goes away gives back exactly the frames of its vacant
regions. -/
theorem Tracked.leased_of_teardown
    (ht : w.Tracked) (hw : w.Orderly) {result : Result Unit} {machine : Machine LockName Arena}
    (hrun : teardown.run w.machine = some (result, machine)) :
    machine.state.frames.leasedFrames = w.frames.leasedFrames \ w.vacantFrames := by
  obtain ⟨-, outside, hframed, hdropped⟩ := hw.teardown_run hrun
  obtain ⟨hleased, -⟩ := hw.leased_of_dropped hframed hdropped
  ext i
  rw [hleased, hdropped.outside_iff, ht.mem_sdiff_vacantFrames hw]
  refine or_congr_right (exists_congr fun slot => exists_congr fun region => ?_)
  refine ⟨And.right, fun hhas => ⟨?_, hhas⟩⟩
  rw [List.mem_range, ← hw.framed.slots]
  exact hhas.1.lt

/-! ## Both ways to give regions back -/

/-- In every reachable world, a release gives back the vacant regions, as many
as it says, and nothing else: blocks can still be freed as a whole, and a
second release finds nothing.  A heap that goes away gives back the frames of
its vacant regions and leaves the others leased, and the blocks that were live
then stay apart from every later lease, region and block. -/
theorem Reachable.returns_vacant
    (h : Reachable Rules.tidy w) :
    w.vacantFrames ⊆ w.frames.leasedFrames ∧
    (∃ machine, releaseEmptyRegions.run w.machine = some (.ok w.vacant.length, machine) ∧
      w.Vacated machine.state ∧
      (∀ b ∈ w.ledger, ∃ machine' slot region first,
        (free b.address).run machine = some (.ok (), machine') ∧
          machine.state.Clears machine'.state b slot region first) ∧
      ∃ machine', releaseEmptyRegions.run machine = some (.ok 0, machine') ∧
        machine'.locks = machine.locks ∧ machine'.state = machine.state) ∧
    ∃ machine, teardown.run w.machine = some (.ok (), machine) ∧
      machine.state.frames.leasedFrames = w.frames.leasedFrames \ w.vacantFrames ∧
      (∀ slot region, Has w.regions slot region → region.blocksOf w.ledger ≠ ∅ →
        region.frameRun w.frames ⊆ machine.state.frames.leasedFrames) ∧
      ∀ map w', map.Reaches w.frames →
        Relation.ReflTransGen (Step Rules.tidy) (w.restarted machine map) w' →
        ∀ b ∈ w.ledger, ∀ qa : PhysAddr, b.Covers qa.val.toNat → w'.Unclaimed qa := by
  have hw := h.orderly
  have ht := h.tracked
  refine ⟨hw.vacantFrames_subset, ?_, ?_⟩
  · obtain ⟨n, arena', hyields, hframed, hreleased⟩ :=
      releaseEmptyRegions_cases hw.framed (hw.locks .heap) (hw.locks .frames)
    obtain ⟨machine, hrun, -, rfl⟩ := hyields.exists_run
    obtain ⟨hcount, hvacated⟩ := ht.vacated_of_released hw hframed hreleased
    -- the world after the release has the same ledger, and no vacant region
    have h' : Reachable Rules.tidy (w.called .releaseEmptyRegions (.ok n) machine) :=
      h.step (.call trivial hrun)
    have hoccupied (slot : ℕ) (region : Region)
        (hhas : Has (w.called .releaseEmptyRegions (.ok n) machine).regions slot region) :
        region.blocksOf w.ledger ≠ ∅ := by
      change Has machine.state.heap.regions slot region at hhas
      rw [hvacated.heap] at hhas
      exact (has_occupied_iff.1 hhas).2
    rw [hcount] at hrun
    exact ⟨machine, hrun, hvacated, fun b hb => h'.tracked.exists_clears h'.orderly hb,
      h'.tracked.release_of_occupied h'.orderly hoccupied⟩
  · obtain ⟨arena', outside, hyields, -⟩ := teardown_cases hw.framed (hw.locks .frames)
    obtain ⟨machine, hrun, -⟩ := hyields.exists_run
    have hleased := ht.leased_of_teardown hw hrun
    refine ⟨machine, hrun, hleased, fun slot region hhas hholds i hi => ?_, ?_⟩
    · rw [hleased, ht.mem_sdiff_vacantFrames hw]
      exact Or.inr ⟨slot, region, hhas, (ht.used_eq_zero_iff hhas).not.2 hholds, hi⟩
    · intro map w' hreaches hlater b hb qa hqa
      have hrestarted : Reachable Rules.tidy (w.restarted machine map) :=
        h.step (.drop trivial hreaches hrun)
      exact hrestarted.unclaimed_of_dropped (mem_union_right _ hb) hlater hqa

/-- A heap that goes away with its first block live, and a caller that allocates
from the next heap; and the same heap once the block has been freed, which has a
region to release. -/
theorem exists_vacant_and_orphan :
    ∃ (w w' v : World) (machine released : Machine LockName Arena) (n : ℕ),
      (Reachable Rules.tidy w ∧ w.ledger = {⟨⟨0x100400⟩, 7⟩} ∧
        teardown.run w.machine = some (.ok (), machine) ∧
        (w.restarted machine w.heap.map).Step Rules.tidy w' ∧ w'.Unclaimed ⟨0x100408⟩) ∧
      Reachable Rules.tidy v ∧ v.ledger = ∅ ∧ 0 < n ∧
        releaseEmptyRegions.run v.machine = some (.ok n, released) ∧ v.Vacated released.state := by
  obtain ⟨w, hw, hledger⟩ := exists_reachable_block Rules.tidy
  let b : Block := ⟨⟨0x100400⟩, 7⟩
  have hb : b ∈ w.ledger := by
    rw [hledger]
    exact mem_singleton_self b
  -- the heap goes away, and somebody allocates from the next one
  obtain ⟨-, -, machine, hteardown, -, -, hlater⟩ := hw.returns_vacant
  have hreaches := hw.orderly.framed.reaches
  have hrestarted : Reachable Rules.tidy (w.restarted machine w.heap.map) :=
    hw.step (.drop trivial hreaches hteardown)
  obtain ⟨result, next, hrun⟩ := hrestarted.orderly.exists_run (.alloc 100) trivial
  have hstep : (w.restarted machine w.heap.map).Step Rules.tidy
      ((w.restarted machine w.heap.map).called (.alloc 100) result next) := .call trivial hrun
  have hcovers : b.Covers (⟨0x100408⟩ : PhysAddr).val.toNat := by decide
  have hunclaimed := hlater _ _ hreaches (.single hstep) b hb _ hcovers
  -- the block is freed, and its region stays in the table
  obtain ⟨freed, slot, region, first, hfree, hclears⟩ := hw.tracked.exists_clears hw.orderly hb
  have hfreed : Reachable Rules.tidy (w.called (.free b.address) (.ok ()) freed) :=
    hw.step (.call trivial hfree)
  have hempty : (w.called (.free b.address) (.ok ()) freed).ledger = ∅ := by
    change w.ledger.filter (·.address ≠ b.address) = ∅
    rw [hledger]
    rfl
  have hhas : Has (w.called (.free b.address) (.ok ()) freed).regions slot
      (region.withoutBlock 7) := by
    change Has freed.state.heap.regions slot _
    rw [hclears.heap]
    exact (has_set_self_iff hclears.has.lt).2 rfl
  have hvacant : region.withoutBlock 7 ∈ (w.called (.free b.address) (.ok ()) freed).vacant := by
    refine List.mem_filter.2 ⟨mem_reduceOption_iff.2 ⟨slot, hhas⟩, decide_eq_true ?_⟩
    rw [hempty]
    rfl
  obtain ⟨-, ⟨released, hrelease, hvacated, -⟩, -⟩ := hfreed.returns_vacant
  exact ⟨w, _, _, machine, released, _, ⟨hw, hledger, hteardown, hstep, hunclaimed⟩, hfreed,
    hempty, List.length_pos_of_mem hvacant, hrelease, hvacated⟩

end World

end KernelMemory
