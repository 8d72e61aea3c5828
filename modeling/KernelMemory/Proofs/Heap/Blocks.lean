import KernelMemory.Heap.Blocks
import KernelMemory.Proofs.Heap.Framing
import KernelMemory.Proofs.Heap.Sizing

/-!
# Allocating and freeing blocks

Everything that one allocation or one free can do to an arena whose regions lie
on frames of their own, with any content of memory.  `Allocates` and `Frees`
list the ways each can end, with the guards that lead there; the main
statements `allocAligned_cases` and `free_cases` say that the programs end in
one of these ways, and never wait.
-/

namespace KernelMemory

open RegionTable

/-! ## Counters -/

namespace Heap

def counting (heap : Heap) (units : ℕ) : Heap :=
  { heap with
    allocatedBytes := ⟨heap.allocatedBytes.value + UInt64.ofNat (16 * units)⟩
    liveAllocations := ⟨heap.liveAllocations.value + 1⟩ }

def discounting (heap : Heap) (units : ℕ) : Heap :=
  { heap with
    allocatedBytes := ⟨heap.allocatedBytes.value - UInt64.ofNat (16 * units)⟩
    liveAllocations := ⟨heap.liveAllocations.value - 1⟩ }

variable {heap : Heap} {units : ℕ}

theorem mul_unitBytes (h : 16 * units < Word.count) :
    Word.mul units Parameters.unitBytes = .ok (16 * units) := by
  rw [Word.mul_eq_ok_iff, Region.unitBytes_eq]
  omega

theorem countPlaced_eq (h : 16 * units < Word.count) :
    heap.countPlaced units = .ok (heap.counting units) := by
  rw [countPlaced, mul_unitBytes h]
  rfl

theorem countRemoved_eq (h : 16 * units < Word.count) :
    heap.countRemoved units = .ok (heap.discounting units) := by
  rw [countRemoved, mul_unitBytes h]
  rfl

theorem emptySlot?_spec {slot : ℕ} (h : heap.emptySlot? = some slot) :
    heap.regions[slot]? = some none ∧ ∀ j, j < slot → ∃ region, Has heap.regions j region := by
  rw [emptySlot?, List.findIdx?_eq_some_iff_getElem] at h
  obtain ⟨hlt, hnone, hbefore⟩ := h
  refine ⟨?_, fun j hj => ?_⟩
  · rw [List.getElem?_eq_getElem hlt, Option.isNone_iff_eq_none.1 hnone]
  · have hsome := hbefore j hj
    rw [Bool.not_eq_true, Option.isNone_eq_false_iff, Option.isSome_iff_exists] at hsome
    obtain ⟨region, hregion⟩ := hsome
    exact ⟨region, by rw [Has, List.getElem?_eq_getElem (by omega), hregion]⟩

theorem full_of_emptySlot? (h : heap.emptySlot? = none) (j : ℕ) :
    heap.regions[j]? ≠ some none := by
  intro hj
  rw [emptySlot?, List.findIdx?_eq_none_iff] at h
  have hsome := h none (List.mem_of_getElem? hj)
  simp at hsome

end Heap

/-! ## Effects -/

namespace Arena

open Program

/-- A block of `units` units is placed in the region of a slot, at the region's
lowest aligned free run, and counted. -/
structure Places
    (arena arena' : Arena) (units align slot : ℕ) (region : Region) (first : ℕ) : Prop where
  has : Has arena.heap.regions slot region
  room : region.reserved + region.used + units ≤ region.units
  placement : region.Placement arena.memory arena'.memory units align first
  frames : arena'.frames = arena.frames
  heap : arena'.heap = (arena.heap.setSlot slot (some (region.withBlock units))).counting units

/-- The lowest free run of `count` frames becomes a formatted region in the
lowest empty slot. -/
structure Leases
    (arena arena' : Arena) (count slot index : ℕ) (region : Region) : Prop where
  empty : arena.heap.emptySlot? = some slot
  least : IsLeast {t | arena.frames.bitmap.Fits count 1 t} index
  size : region.frames = count
  used : region.used = 0
  start : region.start = arena.frames.frameStart index
  maps : region.MapsWritten arena.memory arena'.memory
    (fun i => decide (i < region.reserved)) (fun _ => false)
  frames : ∃ h, arena'.frames = arena.frames.leasing index count h
  heap : arena'.heap = arena.heap.setSlot slot (some region)

/-- The ways to allocate `units` units at a multiple of `align`. -/
inductive Allocates (arena : Arena) (units align : ℕ) : Result PhysAddr → Arena → Prop
  | placed {arena' : Arena} {slot first : ℕ} {region : Region}
      (before : ∀ j other, j < slot → Has arena.heap.regions j other →
        ¬ other.Admits arena.memory units align)
      (places : arena.Places arena' units align slot region first) :
      Allocates arena units align (.ok (region.unitAddress first)) arena'
  | grown {arena₁ arena' : Arena} {count slot index first : ℕ} {region : Region}
      (full : ∀ j other, Has arena.heap.regions j other →
        ¬ other.Admits arena.memory units align)
      (size : Region.framesFor units align = .ok count)
      (leases : arena.Leases arena₁ count slot index region)
      (places : arena₁.Places arena' units align slot region first) :
      Allocates arena units align (.ok (region.unitAddress first)) arena'
  | refused
      (full : ∀ j other, Has arena.heap.regions j other →
        ¬ other.Admits arena.memory units align)
      (stuck : arena.heap.emptySlot? = none ∨ ∃ count, Region.framesFor units align = .ok count ∧
        ∀ t, ¬ arena.frames.bitmap.Fits count 1 t) :
      Allocates arena units align (.refuse .outOfMemory) arena

/-- The ways to free the block at an address.  If the maps show a block larger
than what its region is known to hold, the block is cleared and the free
faults. -/
inductive Frees (arena : Arena) (pa : PhysAddr) : Result Unit → Arena → Prop
  | freed {arena' : Arena} {slot first last : ℕ} {region : Region}
      (has : Has arena.heap.regions slot region)
      (address : pa.val.toNat = region.unitStart first)
      (removal : region.Removal arena.memory arena'.memory first last)
      (held : last - first ≤ region.used)
      (frames : arena'.frames = arena.frames)
      (heap : arena'.heap = (arena.heap.setSlot slot
        (some (region.withoutBlock (last - first)))).discounting (last - first)) :
      Frees arena pa (.ok ()) arena'
  | overdrawn {m' : Memory} {slot first last : ℕ} {region : Region}
      (has : Has arena.heap.regions slot region)
      (address : pa.val.toNat = region.unitStart first)
      (removal : region.Removal arena.memory m' first last)
      (held : region.used < last - first) :
      Frees arena pa (.fault .subOverflow) { arena with memory := m' }
  | unknown
      (none : ∀ slot region first, Has arena.heap.regions slot region →
        pa.val.toNat = region.unitStart first → region.reserved ≤ first →
        first < region.units → region.headAt arena.memory first = false) :
      Frees arena pa (.refuse (.invalidFree pa)) arena

/-! ## Sections on a part of an arena -/

variable {arena : Arena} {outside : Finset ℕ} {locks : Locks LockName} {units align : ℕ}

theorem perform_onMemory
    {α : Type} {body : Section Memory α} {result : Result α} {m' : Memory}
    (h : body.perform arena.memory = (result, m')) :
    (onMemory body).perform arena = (result, { arena with memory := m' }) :=
  Section.perform_zoom_of h

theorem units_lt_count {region : Region} (h : region.Valid) {n : ℕ} (hn : n ≤ region.units) :
    16 * n < Word.count := by
  have hstop := h.stop_lt
  rw [Region.stop] at hstop
  rw [Region.units_eq] at hn
  change _ < UInt64.size
  omega

/-! ## Allocation -/

theorem Places.toNat_unitAddress
    {arena' : Arena} {slot first : ℕ} {region : Region}
    (hplaces : arena.Places arena' units align slot region first) (h : arena.Framed outside) :
    (region.unitAddress first).val.toNat = region.unitStart first := by
  have hinside := hplaces.placement.least.1.inside
  exact (h.valid slot region hplaces.has).toNat_unitAddress (by omega)

theorem Places.has_withBlock
    {arena' : Arena} {slot first : ℕ} {region : Region}
    (hplaces : arena.Places arena' units align slot region first) :
    Has arena'.heap.regions slot (region.withBlock units) := by
  rw [hplaces.heap]
  exact (has_set_self_iff hplaces.has.lt).2 rfl

theorem place_cases (h : arena.Framed outside) (hreq : Region.Request units align) :
    (∃ slot region first m',
      PlacedInTable arena.heap.regions arena.memory m' units align slot region first ∧
      (place units align).perform arena =
        (.ok (some (region.unitAddress first)),
          { arena with
            memory := m'
            heap := arena.heap.setSlot slot (some (region.withBlock units)) })) ∨
    ((∀ j other, Has arena.heap.regions j other → ¬ other.Admits arena.memory units align) ∧
      (place units align).perform arena = (.ok none, arena)) := by
  rcases perform_placeInTable_cases hreq arena.heap.regions h.valid h.visible arena.memory with
    ⟨slot, region, first, m', hplaced, hrun⟩ | ⟨hnone, hrun⟩
  · refine Or.inl ⟨slot, region, first, m', hplaced, ?_⟩
    rw [place, Section.perform_get_bind, Section.perform_bind_ok (perform_onMemory hrun)]
    rfl
  · refine Or.inr ⟨hnone, ?_⟩
    rw [place, Section.perform_get_bind, Section.perform_bind_ok (perform_onMemory hrun)]
    rfl

/-- Growth leases and formats a region of the least size with room. -/
theorem grow_cases
    (h : arena.Framed outside) (hreq : Region.Request units align)
    (hfree : locks.IsFree .frames) :
    (∃ arena' count slot index region, Region.framesFor units align = .ok count ∧
      arena.Leases arena' count slot index region ∧
      (grow units align).Yields locks arena (.ok slot) arena') ∨
    ((arena.heap.emptySlot? = none ∨ ∃ count, Region.framesFor units align = .ok count ∧
        ∀ t, ¬ arena.frames.bitmap.Fits count 1 t) ∧
      (grow units align).Yields locks arena (.refuse .outOfMemory) arena) := by
  have hslot : (inspect (fun arena : Arena => arena.heap.emptySlot?) :
      Program LockName Arena (Option ℕ)).Yields locks arena (.ok arena.heap.emptySlot?) arena :=
    yields_inspect _
  rcases hempty : arena.heap.emptySlot? with - | slot
  · rw [hempty] at hslot
    refine Or.inr ⟨Or.inl rfl, ?_⟩
    exact hslot.bind ((yields_report _).bind (yields_refuse _))
  · obtain ⟨count, hsize, -, hcount⟩ := hreq.framesFor_cases
    have hpos := hreq.framesFor_pos hsize
    have hframes : (ofResult (Region.framesFor units align) :
        Program LockName Arena ℕ).Yields locks arena (.ok count) arena :=
      yields_ofResult_of_eq hsize
    rw [hempty] at hslot
    rcases FramePool.lease_cases h.sound hfree hpos with
      ⟨index, hindex, hinside, pa, hpa, hlease⟩ | ⟨hnone, hlease⟩
    · let region : Region := ⟨pa, count, 0⟩
      let leased : Arena := { arena with frames := arena.frames.leasing index count hinside }
      have hon : region.OnFrames arena.frames := .of_start hpa (h.sound.units ▸ hinside)
      have haddressable : region.Addressable := hon.addressable h.sound hpos
      have hvisible := hon.visible h.sound h.reaches hpos
      obtain ⟨m', hmaps, hformat⟩ := Region.perform_format haddressable hvisible leased.memory
      have hcreate : Region.create pa count = .ok region :=
        Region.create_eq pa (by rw [Word.count_eq]; omega)
      refine Or.inl ⟨{ leased with
        memory := m'
        heap := arena.heap.setSlot slot (some region) }, count, slot, index, region, hsize,
        ⟨hempty, hindex, rfl, rfl, hpa, hmaps, ⟨hinside, rfl⟩, rfl⟩, ?_⟩
      refine hslot.bind (hframes.bind ((within_framesPart hlease).bind ?_))
      refine (yields_ofResult_of_eq hcreate).bind ((yields_inspect _).bind ?_)
      refine (yields_critical (perform_onMemory hformat)).outcome_ok.bind ?_
      exact (yields_ofResult_of_eq haddressable.capacity_eq).bind
        ((yields_report _).bind ((yields_update _).bind (yields_pure slot)))
    · refine Or.inr ⟨Or.inr ⟨count, hsize, hnone⟩, ?_⟩
      exact hslot.bind (hframes.bind (within_framesPart hlease).bind_error)

/-- Growth ends at its first view of the region that it has leased, if that
cannot be viewed. -/
theorem grow_of_not_visible
    {slot count index : ℕ} (hsound : arena.frames.Sound) (hreq : Region.Request units align)
    (hfree : locks.IsFree .frames) (hempty : arena.heap.emptySlot? = some slot)
    (hsize : Region.framesFor units align = .ok count)
    (hleast : IsLeast {t | arena.frames.bitmap.Fits count 1 t} index)
    (hhidden : ∀ pa : PhysAddr, pa.val.toNat = arena.frames.frameStart index →
      ¬ Region.Visible ⟨pa, count, 0⟩ arena.heap.map) :
    ∃ arena', (grow units align).Yields locks arena (.fault .invalidSlice) arena' := by
  have hslot : (inspect (fun arena : Arena => arena.heap.emptySlot?) :
      Program LockName Arena (Option ℕ)).Yields locks arena (.ok (some slot)) arena :=
    hempty ▸ yields_inspect _
  rcases FramePool.lease_cases hsound hfree (hreq.framesFor_pos hsize) with
    ⟨index', hindex, hinside, pa, hpa, hlease⟩ | ⟨hnone, -⟩
  · obtain rfl := hindex.unique hleast
    obtain ⟨count', hsize', -, hcount⟩ := hreq.framesFor_cases
    rw [hsize] at hsize'
    cases hsize'
    have hcreate : Region.create pa count = .ok ⟨pa, count, 0⟩ :=
      Region.create_eq pa (by rw [Word.count_eq]; omega)
    refine ⟨{ arena with frames := arena.frames.leasing index' count hinside }, ?_⟩
    refine hslot.bind ((yields_ofResult_of_eq hsize).bind ((within_framesPart hlease).bind ?_))
    refine (yields_ofResult_of_eq hcreate).bind ((yields_inspect _).bind ?_)
    exact (yields_critical (perform_onMemory
      (Region.perform_format_of_not_visible (hhidden pa hpa) _))).outcome_fault.bind_error
  · exact absurd hleast.1 (hnone index)

/-- An empty slot takes a formatted region. -/
structure Adopts (arena arena' : Arena) (slot : ℕ) (region : Region) : Prop where
  empty : arena.heap.regions[slot]? = some none
  used : region.used = 0
  maps : region.MapsWritten arena.memory arena'.memory
    (fun i => decide (i < region.reserved)) (fun _ => false)
  heap : arena'.heap = arena.heap.setSlot slot (some region)

namespace Adopts

variable {arena' : Arena} {slot j t : ℕ} {region r : Region}
variable (hadopts : arena.Adopts arena' slot region)
include hadopts

theorem regions : arena'.heap.regions = arena.heap.regions.set slot (some region) := by
  rw [hadopts.heap]
  rfl

/-- The new region joins those that were there, in a slot of its own. -/
theorem has_iff :
    Has arena'.heap.regions j r ↔
      (j = slot ∧ region = r) ∨ (j ≠ slot ∧ Has arena.heap.regions j r) := by
  have hlt := (List.getElem?_eq_some_iff.1 hadopts.empty).1
  rw [hadopts.regions, has_set_iff hlt, Option.some.injEq]

theorem ne_of_has (hr : Has arena.heap.regions j r) : j ≠ slot := by
  rintro rfl
  rw [Has, hadopts.empty] at hr
  cases hr

theorem has : Has arena'.heap.regions slot region := hadopts.has_iff.2 (Or.inl ⟨rfl, rfl⟩)

end Adopts

theorem Leases.adopts
    {arena' : Arena} {count slot index : ℕ} {region : Region}
    (hleases : arena.Leases arena' count slot index region) : arena.Adopts arena' slot region :=
  ⟨(Heap.emptySlot?_spec hleases.empty).1, hleases.used, hleases.maps, hleases.heap⟩

theorem Leases.framed
    {arena' : Arena} {count slot index : ℕ} {region : Region}
    (hleases : arena.Leases arena' count slot index region) (h : arena.Framed outside)
    (hpos : 0 < count) : arena'.Framed outside := by
  obtain ⟨hinside, hframes⟩ := hleases.frames
  have hfree := FramePool.disjoint_of_fits hleases.least.1
  have hsize := hleases.size
  subst hsize
  exact h.addRegion hleases.adopts.empty hinside hfree hleases.start hpos hleases.used hframes
    (by rw [hleases.heap]; rfl) hleases.adopts.regions

/-- The first block of a new region lies at the first aligned unit behind the
maps. -/
theorem Leases.isLeast_fits
    {arena' : Arena} {count slot index : ℕ} {region : Region}
    (hleases : arena.Leases arena' count slot index region)
    (hreq : Region.Request units align) (hroom : Region.HasRoom units align count) :
    IsLeast {t | region.Fits arena'.memory units align t}
      (ceilDiv (4 * count) align * align) := by
  obtain rfl := hleases.size
  exact hreq.isLeast_fits hleases.maps.used hroom

/-- The block that a region was leased for is its first block. -/
theorem Leases.first_eq
    {arena₁ arena' : Arena} {count slot index first : ℕ} {region : Region}
    (hleases : arena.Leases arena₁ count slot index region)
    (hreq : Region.Request units align) (hsize : Region.framesFor units align = .ok count)
    (hplaces : arena₁.Places arena' units align slot region first) :
    first = ceilDiv (4 * count) align * align := by
  have hroom := (hreq.isLeast_of_framesFor hsize).1.2
  exact hplaces.placement.least.unique (hleases.isLeast_fits hreq hroom)

theorem exists_placeInSlot
    {slot first : ℕ} {region : Region} (hreq : Region.Request units align)
    (hhas : Has arena.heap.regions slot region) (hvalid : region.Valid)
    (hvisible : region.Visible arena.heap.map)
    (hroom : region.reserved + region.used + units ≤ region.units)
    (hfits : region.Fits arena.memory units align first) :
    ∃ first m', region.Placement arena.memory m' units align first ∧
      (placeInSlot slot units align).perform arena =
        (.ok (region.unitAddress first),
          { arena with
            memory := m'
            heap := arena.heap.setSlot slot (some (region.withBlock units)) }) := by
  have hheld : region.used + units < Word.count := by
    have := units_lt_count hvalid (n := region.used + units) (by omega)
    omega
  rcases Region.perform_place_cases hvalid.toAddressable hvisible hreq hheld arena.memory with
    ⟨first, m', hplacement, hrun⟩ | ⟨hnone, -⟩
  · refine ⟨first, m', hplacement, ?_⟩
    rw [placeInSlot, Section.perform_get_bind]
    simp only [region?_eq_some_iff.2 hhas]
    rw [Section.perform_bind_ok (perform_onMemory hrun)]
    rfl
  · exact absurd hfits (hnone _)

theorem Adopts.room
    {arena' : Arena} {slot : ℕ} {region : Region} (hadopts : arena.Adopts arena' slot region)
    (hreq : Region.Request units align)
    (hsize : Region.framesFor units align = .ok region.frames) :
    region.reserved + region.used + units ≤ region.units ∧
      ∃ t, region.Fits arena'.memory units align t := by
  have hroom := (hreq.isLeast_of_framesFor hsize).1.2
  have hrun := hreq.runBehindMaps_of_hasRoom hroom
  have hbehind := hrun.behind
  have hinside := hrun.inside
  constructor
  · rw [hadopts.used]
    omega
  · exact ⟨_, (hreq.isLeast_fits hadopts.maps.used hroom).1⟩

/-- Placing, with growth if there is no room.  The block is not counted yet. -/
theorem placeOrGrow_cases
    (h : arena.Framed outside) (hreq : Region.Request units align)
    (hfree : locks.IsFree .frames) :
    (∃ pa arena', 16 * units < Word.count ∧
      Allocates arena units align (.ok pa) { arena' with heap := arena'.heap.counting units } ∧
      (placeOrGrow units align).Yields locks arena (.ok pa) arena') ∨
    (Allocates arena units align (.refuse .outOfMemory) arena ∧
      (placeOrGrow units align).Yields locks arena (.refuse .outOfMemory) arena) := by
  rcases place_cases h hreq with ⟨slot, region, first, m', hplaced, hrun⟩ | ⟨hfull, hrun⟩
  · have hroom := hplaced.room
    refine Or.inl ⟨_, { arena with
        memory := m'
        heap := arena.heap.setSlot slot (some (region.withBlock units)) },
      units_lt_count (h.valid slot region hplaced.has) (by omega),
      .placed hplaced.before ⟨hplaced.has, hplaced.room, hplaced.placement, rfl, rfl⟩, ?_⟩
    exact (yields_critical hrun).bind (yields_pure _)
  · rcases grow_cases h hreq hfree with
      ⟨arena₁, count, slot, index, region, hsize, hleases, hgrow⟩ | ⟨hstuck, hgrow⟩
    · have hpos := hreq.framesFor_pos hsize
      have hhas := hleases.adopts.has
      have hframed := hleases.framed h hpos
      have hvalid := hframed.valid slot region hhas
      obtain ⟨hroom, t, hfits⟩ := hleases.adopts.room hreq (hleases.size ▸ hsize)
      obtain ⟨first, m', hplacement, hplace⟩ :=
        exists_placeInSlot hreq hhas hvalid (hframed.visible slot region hhas) hroom hfits
      refine Or.inl ⟨_, { arena₁ with
          memory := m'
          heap := arena₁.heap.setSlot slot (some (region.withBlock units)) },
        units_lt_count hvalid (by omega),
        .grown hfull hsize hleases ⟨hhas, hroom, hplacement, rfl, rfl⟩, ?_⟩
      exact (yields_critical hrun).bind (hgrow.bind (yields_critical hplace))
    · refine Or.inr ⟨.refused hfull hstuck, ?_⟩
      exact (yields_critical hrun).bind hgrow.bind_error

/-- The units of a request, and what their alignment means in units. -/
theorem request_of_layout
    {size align : UInt64} (hsize : size ≠ 0) (hpow : align.toNat.isPowerOfTwo)
    (hle : align.toNat ≤ 4096) :
    Region.Request (ceilDiv size.toNat 16) (max (align.toNat / 16) 1) where
  units_pos := by
    have hne : size.toNat ≠ 0 := fun hzero => hsize (UInt64.toNat_inj.1 hzero)
    rw [ceilDiv]
    omega
  units_le := by
    have hlt := size.toNat_lt
    rw [ceilDiv]
    omega
  align_pow := by
    obtain ⟨k, hk⟩ := hpow
    rw [hk]
    by_cases hk4 : 4 ≤ k
    · refine ⟨k - 4, ?_⟩
      have hdiv : 2 ^ k / 16 = 2 ^ (k - 4) := Nat.pow_div (n := 4) hk4 (by decide)
      rw [hdiv, max_eq_left Nat.one_le_two_pow]
    · refine ⟨0, ?_⟩
      have hlt : 2 ^ k < 16 := Nat.pow_lt_pow_right (n := 4) (by decide) (by omega)
      rw [Nat.div_eq_of_lt hlt]
      rfl
  align_le := by omega

/-- An allocation is refused for its arguments, or allocates. -/
theorem allocAligned_cases
    (h : arena.Framed outside) (hheap : locks.IsFree .heap) (hframes : locks.IsFree .frames)
    (size align : UInt64) :
    (size = 0 ∧ (allocAligned size align).Yields locks arena
      (.refuse (.invalidArgument .emptyBlock)) arena) ∨
    (size ≠ 0 ∧ ¬ (align.toNat.isPowerOfTwo ∧ align.toNat ≤ 4096) ∧
      (allocAligned size align).Yields locks arena
        (.refuse (.invalidArgument .alignmentUnsupported)) arena) ∨
    (size ≠ 0 ∧ align.toNat.isPowerOfTwo ∧ align.toNat ≤ 4096 ∧ ∃ result arena',
      Allocates arena (ceilDiv size.toNat 16) (max (align.toNat / 16) 1) result arena' ∧
      (allocAligned size align).Yields locks arena result arena') := by
  have hlimit : Parameters.frameSize < align ↔ ¬ align.toNat ≤ 4096 := by
    rw [UInt64.lt_iff_toNat_lt, not_le]
    rfl
  rw [allocAligned]
  by_cases hsize : size = 0
  · refine Or.inl ⟨hsize, ?_⟩
    rw [if_pos hsize]
    exact yields_refuse _
  by_cases hpow : align.toNat.isPowerOfTwo ∧ align.toNat ≤ 4096
  · refine Or.inr (Or.inr ⟨hsize, hpow.1, hpow.2, ?_⟩)
    rw [if_neg hsize, if_neg (by rw [hlimit]; tauto)]
    have hreq := request_of_layout hsize hpow.1 hpow.2
    have hinner : (locks.taking .heap).IsFree .frames :=
      Locks.isFree_taking hframes (by decide)
    rcases placeOrGrow_cases h hreq hinner with
      ⟨pa, arena', hcount, hallocates, hplace⟩ | ⟨hallocates, hplace⟩
    · refine ⟨_, _, hallocates, ?_⟩
      have hcounted : (countPlaced (ceilDiv size.toNat 16)).perform arena' =
          (.ok (), { arena' with heap := arena'.heap.counting (ceilDiv size.toNat 16) }) := by
        rw [countPlaced, Section.perform_get_bind,
          Section.perform_lift_bind_ok _ _ (Heap.countPlaced_eq hcount)]
        rfl
      refine Yields.bind (Yields.withLock hheap (hplace.outcome_ok.bind
        ((yields_critical hcounted).bind (yields_pure _)))) ?_
      exact (yields_report _).bind (yields_pure pa)
    · refine ⟨_, _, hallocates, ?_⟩
      refine Yields.bind (Yields.withLock hheap (hplace.outcome_refused.bind
        ((yields_pure _).bind (yields_pure _)))) ?_
      exact (yields_report _).bind (yields_refuse _)
  · refine Or.inr (Or.inl ⟨hsize, hpow, ?_⟩)
    rw [if_neg hsize, if_pos (by rw [hlimit]; tauto)]
    exact yields_refuse _

/-! ## Freeing -/

theorem remove_cases (h : arena.Framed outside) (pa : PhysAddr) :
    (∃ arena' slot first last region, Has arena.heap.regions slot region ∧
      pa.val.toNat = region.unitStart first ∧
      region.Removal arena.memory arena'.memory first last ∧ 16 * (last - first) < Word.count ∧
      last - first ≤ region.used ∧ arena'.frames = arena.frames ∧
      arena'.heap = (arena.heap.setSlot slot
        (some (region.withoutBlock (last - first)))).discounting (last - first) ∧
      (remove pa).perform arena = (.ok (some (last - first)), arena')) ∨
    (∃ m' slot first last region, Has arena.heap.regions slot region ∧
      pa.val.toNat = region.unitStart first ∧ region.Removal arena.memory m' first last ∧
      region.used < last - first ∧
      (remove pa).perform arena = (.fault .subOverflow, { arena with memory := m' })) ∨
    ((∀ slot region first, Has arena.heap.regions slot region →
        pa.val.toNat = region.unitStart first → region.reserved ≤ first →
        first < region.units → region.headAt arena.memory first = false) ∧
      (remove pa).perform arena = (.ok none, arena)) := by
  rcases perform_removeFromTable_cases pa arena.heap.regions h.valid h.visible
    h.slot_eq_of_contains arena.memory with
    ⟨slot, region, first, last, m', hhas, hpa, hremoval, hrun⟩ | ⟨hnone, hrun⟩
  · have hlast := hremoval.extent.inside
    have hcount := units_lt_count (h.valid slot region hhas) (n := last - first) (by omega)
    by_cases hheld : last - first ≤ region.used
    · rw [if_pos hheld] at hrun
      let removed : Arena := { arena with
        memory := m'
        heap := arena.heap.setSlot slot (some (region.withoutBlock (last - first))) }
      refine Or.inl ⟨{ removed with heap := removed.heap.discounting (last - first) }, slot, first,
        last, region, hhas, hpa, hremoval, hcount, hheld, rfl, rfl, ?_⟩
      rw [remove, Section.perform_get_bind, Section.perform_bind_ok (perform_onMemory hrun)]
      simp only []
      rw [Section.perform_bind_ok (Section.perform_modify _ _), Section.perform_get_bind,
        Section.perform_lift_bind_ok _ _ (Heap.countRemoved_eq hcount)]
      rfl
    · rw [if_neg hheld] at hrun
      refine Or.inr (Or.inl ⟨m', slot, first, last, region, hhas, hpa, hremoval,
        Nat.lt_of_not_le hheld, ?_⟩)
      rw [remove, Section.perform_get_bind]
      exact Section.perform_bind_error (perform_onMemory hrun)
  · refine Or.inr (Or.inr ⟨hnone, ?_⟩)
    rw [remove, Section.perform_get_bind, Section.perform_bind_ok (perform_onMemory hrun)]
    rfl

/-- A free clears the block that the maps show, or is refused. -/
theorem free_cases
    (h : arena.Framed outside) (hheap : locks.IsFree .heap) (pa : PhysAddr) :
    ∃ result arena', Frees arena pa result arena' ∧
      (free pa).Yields locks arena result arena' := by
  rcases remove_cases h pa with
    ⟨arena', slot, first, last, region, hhas, hpa, hremoval, hcount, hheld, hframes, hheap',
      hremove⟩ |
    ⟨m', slot, first, last, region, hhas, hpa, hremoval, hheld, hremove⟩ | ⟨hnone, hremove⟩
  · refine ⟨_, arena', .freed hhas hpa hremoval hheld hframes hheap', ?_⟩
    refine ((yields_critical hremove).withLock hheap).bind ?_
    exact (yields_ofResult_of_eq (Heap.mul_unitBytes hcount)).bind (yields_report _)
  · refine ⟨_, _, .overdrawn hhas hpa hremoval hheld, ?_⟩
    exact ((yields_critical hremove).withLock hheap).bind_error
  · refine ⟨_, _, .unknown hnone, ?_⟩
    refine ((yields_critical hremove).withLock hheap).bind ?_
    exact (yields_report _).bind (yields_refuse _)

end Arena

end KernelMemory
