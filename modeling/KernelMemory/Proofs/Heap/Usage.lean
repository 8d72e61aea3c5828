import KernelMemory.Heap.Blocks
import KernelMemory.Proofs.Heap.Framing

/-!
# Heap usage

What a heap reports about itself, in terms of sums over its table.  A region
gives 252 of its 256 units a frame to blocks, so capacity is linear in the
number of frames, and used and free bytes add up to it.
-/

namespace KernelMemory

open RegionTable

def RegionTable.usage (table : RegionTable) (liveAllocations : UInt64) : HeapUsage where
  regions := table.total fun _ => 1
  frames := table.total Region.frames
  capacity := 4032 * table.total Region.frames
  used := 16 * table.total Region.used
  free := 4032 * table.total Region.frames - 16 * table.total Region.used
  liveAllocations := liveAllocations

namespace HeapUsage

/-- The usage with a region counted in, as plain arithmetic. -/
def withRegion (stats : HeapUsage) (region : Region) : HeapUsage where
  regions := stats.regions + 1
  frames := stats.frames + region.frames
  capacity := stats.capacity + 4032 * region.frames
  used := stats.used + 16 * region.used
  free := stats.free + (4032 * region.frames - 16 * region.used)
  liveAllocations := stats.liveAllocations

theorem addRegion_eq
    {stats : HeapUsage} {region : Region} (hvalid : region.Valid)
    (hregions : stats.regions + 1 < Word.count)
    (hcapacity : stats.capacity + 4032 * region.frames < Word.count)
    (hframes : stats.frames + region.frames < Word.count)
    (hsum : stats.used + stats.free = stats.capacity) :
    stats.addRegion region = .ok (stats.withRegion region) := by
  have hroom := hvalid.room
  have hunits := region.units_eq
  have hreserved := region.reserved_eq
  have hregions' : Word.add stats.regions 1 = .ok (stats.regions + 1) :=
    Word.add_eq_ok_iff.2 ⟨hregions, rfl⟩
  have hframes' : Word.add stats.frames region.frames = .ok (stats.frames + region.frames) :=
    Word.add_eq_ok_iff.2 ⟨hframes, rfl⟩
  have hregion : region.capacity = .ok (4032 * region.frames) := by
    rw [hvalid.capacity_eq, hunits, hreserved]
    congr 1
    omega
  have hcapacity' : Word.add stats.capacity (4032 * region.frames) =
      .ok (stats.capacity + 4032 * region.frames) :=
    Word.add_eq_ok_iff.2 ⟨hcapacity, rfl⟩
  have hused : Word.add stats.used (16 * region.used) = .ok (stats.used + 16 * region.used) := by
    rw [Word.add_eq_ok_iff]
    omega
  have hfree : Word.mul (region.units - region.reserved - region.used) Parameters.unitBytes =
      .ok (4032 * region.frames - 16 * region.used) := by
    rw [Word.mul_eq_ok_iff, Region.unitBytes_eq]
    omega
  have hfree' : Word.add stats.free (4032 * region.frames - 16 * region.used) =
      .ok (stats.free + (4032 * region.frames - 16 * region.used)) := by
    rw [Word.add_eq_ok_iff]
    omega
  simp only [addRegion, hregions', hframes', hregion, hcapacity', hvalid.mul_used, hused,
    region.freeUnits_eq hroom, hfree, hfree', bind, Except.bind, pure, Except.pure,
    withRegion]

/-- Counting a table in, region by region. -/
theorem foldlM_addRegion
    (table : RegionTable) (hvalid : ∀ slot region, table.Has slot region → region.Valid)
    (stats : HeapUsage)
    (hregions : stats.regions + table.length < Word.count)
    (hcapacity : stats.capacity + 4032 * table.total Region.frames < Word.count)
    (hframes : stats.frames + table.total Region.frames < Word.count)
    (hsum : stats.used + stats.free = stats.capacity) :
    (table.filterMap id).foldlM addRegion stats = .ok {
      regions := stats.regions + table.total fun _ => 1
      frames := stats.frames + table.total Region.frames
      capacity := stats.capacity + 4032 * table.total Region.frames
      used := stats.used + 16 * table.total Region.used
      free := stats.capacity + 4032 * table.total Region.frames -
        (stats.used + 16 * table.total Region.used)
      liveAllocations := stats.liveAllocations } := by
  induction table generalizing stats with
  | nil =>
      have hfree : stats.capacity - stats.used = stats.free := by omega
      simp [total, hfree, pure, Except.pure]
  | cons content rest ih =>
      have hvalid' (slot : ℕ) (region : Region) (hhas : Has rest slot region) : region.Valid :=
        hvalid (slot + 1) region (has_cons_succ_iff.2 hhas)
      rw [List.length_cons] at hregions
      cases content with
      | none =>
          have hskip (f : Region → ℕ) : total f (none :: rest) = total f rest := by simp [total]
          simp only [hskip] at hcapacity hframes ⊢
          exact ih hvalid' stats (by omega) hcapacity hframes hsum
      | some region =>
          have hregion := hvalid 0 region (has_cons_zero_iff.2 rfl)
          have hroom := hregion.room
          have hunits := region.units_eq
          have hreserved := region.reserved_eq
          have hcons (f : Region → ℕ) : total f (some region :: rest) =
              f region + total f rest := by simp [total]
          simp only [hcons] at hcapacity hframes ⊢
          have hadd := addRegion_eq hregion (by omega) (by omega) (by omega) hsum
          have hrest := ih hvalid' (stats.withRegion region)
            (by simp only [withRegion]; omega) (by simp only [withRegion]; omega)
            (by simp only [withRegion]; omega) (by simp only [withRegion]; omega)
          have hsplit : (some region :: rest).filterMap id = region :: rest.filterMap id := rfl
          rw [hsplit, List.foldlM_cons, hadd]
          refine hrest.trans ?_
          simp only [withRegion]
          congr 2 <;> omega

end HeapUsage

namespace Arena

open Program

variable {arena : Arena} {outside : Finset ℕ}

theorem Framed.total_frames_le (h : arena.Framed outside) :
    total Region.frames arena.heap.regions ≤ arena.frames.totalFrames := by
  have hcard := h.card_leasedFrames
  have hle := h.sound.card_leasedFrames_le
  omega

theorem Framed.total_used_le (h : arena.Framed outside) :
    total Region.used arena.heap.regions ≤ 252 * total Region.frames arena.heap.regions := by
  rw [← total_mul]
  refine total_mono fun slot region hhas => ?_
  have hroom := (h.valid slot region hhas).room
  rw [region.reserved_eq, region.units_eq] at hroom
  omega

theorem Framed.usage_eq (h : arena.Framed outside) :
    arena.heap.usage =
      .ok (RegionTable.usage arena.heap.regions arena.heap.liveAllocations.value) := by
  have hframes := h.total_frames_le
  have hunits := h.sound.units_lt
  have hslots : arena.heap.regions.length = 64 := h.slots
  rw [h.sound.units] at hunits
  have hcount := Word.count_eq
  rw [Heap.usage, HeapUsage.foldlM_addRegion arena.heap.regions h.valid _
    (by simp only; omega) (by simp only; omega) (by simp only; omega) rfl]
  simp only [RegionTable.usage, Nat.zero_add]

theorem stats_yields
    {locks : Locks LockName} (h : arena.Framed outside) (hheap : locks.IsFree .heap) :
    stats.Yields locks arena
      (.ok (RegionTable.usage arena.heap.regions arena.heap.liveAllocations.value)) arena := by
  refine Yields.withLock hheap (yields_critical ?_)
  rw [Section.perform_get_bind, Section.perform_lift, h.usage_eq]

end Arena

end KernelMemory
