import KernelMemory.Proofs.Heap.Tally
import KernelMemory.Proofs.World.Boot

/-!
# Accounting

The same facts are on record in several places: the maps, the records of the
regions, the two counters of the heap, the frame bitmap and its counter.  The
main statement `Reachable.balanced` says that in every reachable world all of
them agree with the ledger and with the frames that clients hold.
-/

namespace KernelMemory

open Arena Finset Program RegionTable

/-- The maps and the record of a region agree with its blocks. -/
structure Region.Balanced (region : Region) (m : Memory) (ledger : Finset Block) : Prop where
  marked : (region.usedUnits m).card = region.reserved + region.used
  heads : region.headUnits m ⊆ region.usedUnits m
  body : ∀ i ∈ region.headUnits m, region.reserved ≤ i
  held : region.used = ∑ b ∈ region.blocksOf ledger, b.units

namespace World

variable {w : World}

/-- What a heap reports, and what its byte counter shows, agree with the ledger
and the maps. -/
structure HeapBalanced (w : World) (usage : HeapUsage) (bytes : UInt64) : Prop where
  used : usage.used = 16 * ∑ b ∈ w.ledger, b.units
  bytes : bytes.toNat = usage.used
  live : usage.liveAllocations.toNat = w.ledger.card
  heads : total (fun region => (region.headUnits w.memory).card) w.regions = w.ledger.card
  capacity : usage.used + usage.free = usage.capacity
  regions : usage.regions ≤ 64

/-- What a frame pool reports agrees with its counter, the regions of the heap
and the frames that direct callers hold. -/
structure FramesBalanced (w : World) (usage : HeapUsage) (frames : FrameUsage) : Prop where
  counter : frames.allocated = w.frames.allocatedFrames
  owners : frames.allocated = usage.frames + w.held.card
  total : frames.allocated + frames.free = frames.total

/-- While the heap stays, no frames are left behind. -/
theorem Reachable.abandoned_eq (h : Reachable Rules.confined w) : w.abandoned = ∅ := by
  induction h with
  | fresh h => exact h.abandoned
  | step _ step ih =>
      cases step with
      | call permitted run => exact ih
      | store permitted => exact ih
      | drop permitted run => exact permitted.elim

theorem Tracked.total_heads (ht : w.Tracked) (hw : w.Orderly) :
    total (fun region => (region.headUnits w.memory).card) w.regions = w.ledger.card := by
  rw [card_eq_sum_ones, ht.recorded.sum_ledger hw.framed fun _ => 1]
  refine total_congr fun slot region hhas => ?_
  rw [ht.recorded.card_headUnits hw.framed hhas, card_eq_sum_ones]

theorem Tracked.region_balanced
    (ht : w.Tracked) (hw : w.Orderly) {slot : ℕ} {region : Region}
    (hhas : Has w.regions slot region) : region.Balanced w.memory w.ledger where
  marked := ht.recorded.card_usedUnits hw.framed hhas
  heads := (ht.recorded.headUnits_subset hw.framed hhas).1
  body := (ht.recorded.headUnits_subset hw.framed hhas).2
  held := ht.recorded.used slot region hhas

theorem Tracked.heap_balanced (ht : w.Tracked) (hw : w.Orderly) :
    w.HeapBalanced (RegionTable.usage w.regions w.heap.liveAllocations.value)
      w.heap.allocatedBytes.value := by
  have htotal := ht.recorded.total_used hw.framed
  obtain ⟨hcard, hlt⟩ := ht.recorded.units_lt hw.framed
  have hused : (RegionTable.usage w.regions w.heap.liveAllocations.value).used =
      16 * ∑ b ∈ w.ledger, b.units := by
    rw [← htotal]
    rfl
  refine ⟨hused, ?_, ?_, ht.total_heads hw, ?_, ?_⟩
  · rw [ht.recorded.bytes, hused, UInt64.toNat_ofNat_of_lt' hlt]
  · change w.heap.liveAllocations.value.toNat = _
    rw [ht.recorded.live, UInt64.toNat_ofNat_of_lt' (by omega)]
  · have hle := Nat.mul_le_mul_left 16 hw.framed.total_used_le
    rw [← Nat.mul_assoc] at hle
    exact Nat.add_sub_cancel' hle
  · exact (total_le_length w.regions).trans hw.framed.slots.le

/-- In every reachable world all records agree: those of each region with its
maps and its blocks, those of the heap with the ledger, and those of the pool
with the owners of its frames, of which no two share one. -/
theorem Reachable.balanced (h : Reachable Rules.confined w) :
    (∀ slot region, Has w.regions slot region → region.Balanced w.memory w.ledger ∧
      region.OnFrames w.frames ∧ region.frameRun w.frames ⊆ w.frames.leasedFrames) ∧
    (∀ i j a b, Has w.regions i a → Has w.regions j b → i ≠ j →
      Disjoint (a.frameRun w.frames) (b.frameRun w.frames)) ∧
    ∃ usage bytes frames machine machine',
      stats.run w.machine = some (.ok usage, machine) ∧ machine.state = w.arena ∧
      allocatedBytes.run w.machine = some (.ok bytes, w.machine) ∧
      (within framesPart FramePool.stats).run w.machine = some (.ok frames, machine') ∧
      machine'.state = w.arena ∧ w.HeapBalanced usage bytes ∧ w.FramesBalanced usage frames := by
  have hw := h.orderly
  have ht := h.tidy_of_confined.tracked
  have hframed := hw.framed
  refine ⟨fun slot region hhas => ⟨ht.region_balanced hw hhas,
    hframed.onFrames slot region hhas, hframed.frameRun_subset hhas⟩, hframed.apart, ?_⟩
  obtain ⟨machine, hrun, -, hstate⟩ := (stats_yields hframed (hw.locks .heap)).exists_run
  obtain ⟨machine', hrun', -, hstate'⟩ :=
    (within_framesPart (FramePool.stats_yields hframed.sound (hw.locks .frames))).exists_run
  refine ⟨_, _, _, machine, machine', hrun, hstate, rfl, hrun', hstate', ht.heap_balanced hw,
    ?_, ?_, ?_⟩
  · exact hframed.sound.counted.symm
  · have hcard := hframed.card_leasedFrames
    rw [h.abandoned_eq, union_empty] at hcard
    exact hcard.trans (Nat.add_comm _ _)
  · exact Nat.add_sub_cancel' hframed.sound.card_leasedFrames_le

/-- The accounts after a first allocation of seven units. -/
theorem exists_balanced_block :
    ∃ (w : World) (usage : HeapUsage) (bytes : UInt64) (frames : FrameUsage)
      (machine : Machine LockName Arena),
      Reachable Rules.confined w ∧ w.ledger = {⟨⟨0x100400⟩, 7⟩} ∧
      stats.run w.machine = some (.ok usage, machine) ∧
      allocatedBytes.run w.machine = some (.ok bytes, w.machine) ∧ bytes.toNat = 112 ∧
      usage.liveAllocations.toNat = 1 ∧ w.FramesBalanced usage frames := by
  obtain ⟨w, hw, hledger⟩ := exists_reachable_block Rules.confined
  obtain ⟨-, -, usage, bytes, frames, machine, -, hrun, -, hrun', -, -, hheap, hframes⟩ :=
    hw.balanced
  have hbytes := hheap.bytes.trans hheap.used
  have hlive := hheap.live
  rw [hledger, sum_singleton] at hbytes
  rw [hledger, card_singleton] at hlive
  exact ⟨w, usage, bytes, frames, machine, hw, hledger, hrun, hrun', hbytes, hlive, hframes⟩

end World

end KernelMemory
