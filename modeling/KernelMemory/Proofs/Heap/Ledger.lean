import KernelMemory.Proofs.Heap.Framing

/-!
# The ledger of a heap

A ledger is the set of blocks that clients hold.  `Arena.Recorded` says that
the heap's two maps, the record of each region and the counters all describe
the same ledger.  The extent of a block is not stored anywhere: that the maps
determine it rests on the blocks being apart, so that the unit behind a block
is free or the head of the next one.  `extent_eq` is that fact.
-/

namespace KernelMemory

open Finset RegionTable

/-- A block: where it starts, and how many units it has. -/
structure Block where
  address : PhysAddr
  units : ℕ
  deriving DecidableEq

namespace Block

def start (b : Block) : ℕ := b.address.val.toNat

def stop (b : Block) : ℕ := b.start + 16 * b.units

def Covers (b : Block) (n : ℕ) : Prop := b.start ≤ n ∧ n < b.stop

instance (b : Block) (n : ℕ) : Decidable (b.Covers n) := inferInstanceAs (Decidable (_ ∧ _))

/-- Two blocks without a common byte. -/
def Apart (b c : Block) : Prop := b.stop ≤ c.start ∨ c.stop ≤ b.start

theorem Apart.symm {b c : Block} (h : b.Apart c) : c.Apart b := Or.symm h

theorem covers_of_start {b : Block} {n : ℕ} (hpos : 0 < b.units) (h : b.start = n) :
    b.Covers n := by
  rw [Covers, stop, h]
  omega

end Block

namespace Region

variable (region : Region)

/-- Whether a block lies in a region, behind its maps. -/
def Holds (b : Block) : Prop := region.bodyStart ≤ b.start ∧ b.stop ≤ region.stop

instance (b : Block) : Decidable (region.Holds b) := inferInstanceAs (Decidable (_ ∧ _))

/-- The block of `units` units from a unit of the region on. -/
def block (first units : ℕ) : Block := ⟨region.unitAddress first, units⟩

/-- The blocks of a ledger that lie in a region. -/
def blocksOf (ledger : Finset Block) : Finset Block := ledger.filter region.Holds

/-- The units that the blocks of a ledger take in a region. -/
def unitsHeld (ledger : Finset Block) : ℕ := ∑ b ∈ region.blocksOf ledger, b.units

/-- The maps of a region describe a ledger. -/
structure Mapped (m : Memory) (ledger : Finset Block) : Prop where
  used : ∀ i, i < region.units → (region.usedAt m i = true ↔
    i < region.reserved ∨ ∃ b ∈ ledger, b.Covers (region.unitStart i))
  head : ∀ i, i < region.units → (region.headAt m i = true ↔
    ∃ b ∈ ledger, b.start = region.unitStart i)

variable {region}

theorem mem_blocksOf {ledger : Finset Block} {b : Block} :
    b ∈ region.blocksOf ledger ↔ b ∈ ledger ∧ region.Holds b :=
  mem_filter

theorem unitsHeld_insert
    {ledger : Finset Block} {b : Block} (hb : b ∉ ledger) (hholds : region.Holds b) :
    region.unitsHeld (insert b ledger) = b.units + region.unitsHeld ledger := by
  have hnew : b ∉ region.blocksOf ledger := fun h => hb (mem_blocksOf.1 h).1
  rw [unitsHeld, blocksOf, filter_insert, if_pos hholds, ← blocksOf, sum_insert hnew, unitsHeld]

theorem unitsHeld_erase
    {ledger : Finset Block} {b : Block} (hb : b ∈ ledger) (hholds : region.Holds b) :
    b.units + region.unitsHeld (ledger.erase b) = region.unitsHeld ledger := by
  have herase : region.blocksOf (ledger.erase b) = (region.blocksOf ledger).erase b := by
    rw [blocksOf, filter_erase, blocksOf]
  rw [unitsHeld, herase]
  exact add_sum_erase _ Block.units (mem_blocksOf.2 ⟨hb, hholds⟩)

/-- What a region holds depends on its own blocks only. -/
theorem unitsHeld_congr
    {ledger ledger' : Finset Block}
    (hsame : ∀ b ∈ ledger ∪ ledger', region.Holds b → (b ∈ ledger' ↔ b ∈ ledger)) :
    region.unitsHeld ledger' = region.unitsHeld ledger := by
  have hblocks : region.blocksOf ledger' = region.blocksOf ledger := by
    ext b
    rw [mem_blocksOf, mem_blocksOf]
    constructor
    · rintro ⟨hb, hholds⟩
      exact ⟨(hsame b (mem_union_right _ hb) hholds).1 hb, hholds⟩
    · rintro ⟨hb, hholds⟩
      exact ⟨(hsame b (mem_union_left _ hb) hholds).2 hb, hholds⟩
  rw [unitsHeld, unitsHeld, hblocks]

/-- What the maps of a region show depends on the blocks that have units of
the region only. -/
theorem Mapped.of_ledger
    {m : Memory} {ledger ledger' : Finset Block} (h : region.Mapped m ledger)
    (hpos : ∀ b ∈ ledger ∪ ledger', 0 < b.units)
    (hsame : ∀ b i, i < region.units → b.Covers (region.unitStart i) →
      (b ∈ ledger' ↔ b ∈ ledger)) : region.Mapped m ledger' := by
  refine ⟨fun i hi => ?_, fun i hi => ?_⟩
  · rw [h.used i hi]
    refine or_congr_right ⟨?_, ?_⟩
    · rintro ⟨b, hb, hcovers⟩
      exact ⟨b, (hsame b i hi hcovers).2 hb, hcovers⟩
    · rintro ⟨b, hb, hcovers⟩
      exact ⟨b, (hsame b i hi hcovers).1 hb, hcovers⟩
  · rw [h.head i hi]
    constructor
    · rintro ⟨b, hb, hstart⟩
      have hcovers := Block.covers_of_start (hpos b (mem_union_left _ hb)) hstart
      exact ⟨b, (hsame b i hi hcovers).2 hb, hstart⟩
    · rintro ⟨b, hb, hstart⟩
      have hcovers := Block.covers_of_start (hpos b (mem_union_right _ hb)) hstart
      exact ⟨b, (hsame b i hi hcovers).1 hb, hstart⟩

theorem Mapped.congr
    {m m' : Memory} {ledger : Finset Block} (h : region.Mapped m ledger)
    (hregion : region.Addressable) (hkept : ∀ qa, region.InMaps qa → m'.get qa = m.get qa) :
    region.Mapped m' ledger := by
  refine ⟨fun i hi => ?_, fun i hi => ?_⟩
  · rw [hregion.usedAt_congr hkept hi]
    exact h.used i hi
  · rw [hregion.headAt_congr hkept hi]
    exact h.head i hi

/-! ## Blocks of a region -/

theorem Addressable.start_block
    (h : region.Addressable) {first : ℕ} (hfirst : first ≤ region.units) (units : ℕ) :
    (region.block first units).start = region.unitStart first :=
  h.toNat_unitAddress hfirst

theorem Addressable.stop_block
    (h : region.Addressable) {first : ℕ} (hfirst : first ≤ region.units) (units : ℕ) :
    (region.block first units).stop = region.unitStart (first + units) := by
  have hunits : (region.block first units).units = units := rfl
  rw [Block.stop, h.start_block hfirst, hunits, unitStart, unitStart]
  omega

theorem Addressable.holds_block
    (h : region.Addressable) {first units : ℕ} (hlow : region.reserved ≤ first)
    (hinside : first + units ≤ region.units) : region.Holds (region.block first units) := by
  rw [Holds, h.start_block (by omega), h.stop_block (by omega), bodyStart, ← unitStart_units]
  simp only [unitStart]
  omega

theorem Addressable.start_block_eq_iff
    (h : region.Addressable) {first : ℕ} (hfirst : first ≤ region.units) (units i : ℕ) :
    (region.block first units).start = region.unitStart i ↔ i = first := by
  rw [h.start_block hfirst, unitStart, unitStart]
  omega

theorem Addressable.covers_block_iff
    (h : region.Addressable) {first units : ℕ} (hfirst : first ≤ region.units) (i : ℕ) :
    (region.block first units).Covers (region.unitStart i) ↔ first ≤ i ∧ i < first + units := by
  rw [Block.Covers, h.start_block hfirst, h.stop_block hfirst]
  simp only [unitStart]
  omega

/-- Marking the units of a block records the block. -/
theorem Mapped.insert
    {m m' : Memory} {ledger : Finset Block} {first units : ℕ} (h : region.Mapped m ledger)
    (hregion : region.Addressable) (hinside : first + units ≤ region.units)
    (hwritten : region.MapsWritten m m'
      (fun i => if first ≤ i ∧ i < first + units then true else region.usedAt m i)
      (fun i => if i = first then true else region.headAt m i)) :
    region.Mapped m' (insert (region.block first units) ledger) := by
  have hfirst : first ≤ region.units := by omega
  refine ⟨fun i hi => ?_, fun i hi => ?_⟩
  · rw [hwritten.used i hi]
    simp only [exists_mem_insert, hregion.covers_block_iff hfirst]
    split_ifs with hrun
    · exact ⟨fun _ => Or.inr (Or.inl hrun), fun _ => rfl⟩
    · rw [h.used i hi]
      tauto
  · rw [hwritten.head i hi]
    simp only [exists_mem_insert, hregion.start_block_eq_iff hfirst]
    split_ifs with heq
    · exact ⟨fun _ => Or.inl heq, fun _ => rfl⟩
    · rw [h.head i hi]
      tauto

/-- Clearing the units of a block takes it off the record, if no other block
has one of them. -/
theorem Mapped.erase
    {m m' : Memory} {ledger : Finset Block} {b : Block} {first last : ℕ}
    (h : region.Mapped m ledger) (hstart : b.start = region.unitStart first)
    (hlast : first + b.units = last) (hbody : region.reserved ≤ first) (hpos : 0 < b.units)
    (halone : ∀ c ∈ ledger, ∀ n, b.Covers n → c.Covers n → c = b)
    (hunits : ∀ c ∈ ledger, 0 < c.units)
    (hwritten : region.MapsWritten m m'
      (fun i => if first ≤ i ∧ i < last then false else region.usedAt m i)
      (fun i => if i = first then false else region.headAt m i)) :
    region.Mapped m' (ledger.erase b) := by
  have hcovers (i : ℕ) : b.Covers (region.unitStart i) ↔ first ≤ i ∧ i < last := by
    rw [Block.Covers, Block.stop, hstart]
    simp only [unitStart]
    omega
  have hfirst (i : ℕ) : b.start = region.unitStart i ↔ i = first := by
    rw [hstart, unitStart, unitStart]
    omega
  refine ⟨fun i hi => ?_, fun i hi => ?_⟩
  · rw [hwritten.used i hi]
    split_ifs with hrun
    · refine iff_of_false (by simp) ?_
      rintro (hlow | ⟨c, hc, hc_covers⟩)
      · omega
      · exact ne_of_mem_erase hc
          (halone c (mem_of_mem_erase hc) _ ((hcovers i).2 hrun) hc_covers)
    · rw [h.used i hi]
      refine or_congr_right ⟨?_, ?_⟩
      · rintro ⟨c, hc, hc_covers⟩
        refine ⟨c, mem_erase.2 ⟨?_, hc⟩, hc_covers⟩
        rintro rfl
        exact hrun ((hcovers i).1 hc_covers)
      · rintro ⟨c, hc, hc_covers⟩
        exact ⟨c, mem_of_mem_erase hc, hc_covers⟩
  · rw [hwritten.head i hi]
    split_ifs with heq
    · refine iff_of_false (by simp) ?_
      rintro ⟨c, hc, hc_start⟩
      have hc_covers := Block.covers_of_start (hunits c (mem_of_mem_erase hc)) hc_start
      exact ne_of_mem_erase hc (halone c (mem_of_mem_erase hc) _
        (Block.covers_of_start hpos ((hfirst i).2 heq)) hc_covers)
    · rw [h.head i hi]
      constructor
      · rintro ⟨c, hc, hc_start⟩
        refine ⟨c, mem_erase.2 ⟨?_, hc⟩, hc_start⟩
        rintro rfl
        exact heq ((hfirst i).1 hc_start)
      · rintro ⟨c, hc, hc_start⟩
        exact ⟨c, mem_of_mem_erase hc, hc_start⟩

/-- A block of a region starts at one of its units behind the maps. -/
theorem Holds.exists_unit
    {b : Block} (h : region.Holds b) (hregion : region.Addressable) (haligned : 16 ∣ b.start) :
    ∃ first, b.start = region.unitStart first ∧ region.reserved ≤ first ∧
      first + b.units ≤ region.units := by
  obtain ⟨hstart, hstop⟩ := h
  have hbase := hregion.aligned
  rw [bodyStart, unitStart] at hstart
  rw [← unitStart_units, unitStart, Block.stop] at hstop
  refine ⟨(b.start - region.start) / 16, ?_, by omega, by omega⟩
  rw [unitStart]
  omega

theorem Holds.contains
    {b : Block} (h : region.Holds b) (hpos : 0 < b.units) : region.Contains b.address := by
  obtain ⟨hstart, hstop⟩ := h
  rw [bodyStart, unitStart] at hstart
  rw [Block.stop] at hstop
  rw [Contains, ← Block.start]
  omega

/-- The bytes of a block are no bytes of the maps of its region. -/
theorem Holds.not_inMaps
    {b : Block} {qa : PhysAddr} (h : region.Holds b) (hqa : b.Covers qa.val.toNat) :
    ¬ region.InMaps qa := by
  obtain ⟨hstart, -⟩ := h
  obtain ⟨hlow, -⟩ := hqa
  rw [bodyStart_eq] at hstart
  rw [InMaps, mapBytes_eq]
  omega

theorem contains_of_inMaps
    {qa : PhysAddr} (h : region.InMaps qa) : region.Contains qa := by
  rw [InMaps, mapBytes_eq] at h
  rw [Contains, stop]
  omega

theorem contains_of_covers
    {b : Block} {qa : PhysAddr} (h : region.Holds b) (hqa : b.Covers qa.val.toNat) :
    region.Contains qa := by
  obtain ⟨hstart, hstop⟩ := h
  obtain ⟨hlow, hhigh⟩ := hqa
  rw [bodyStart, unitStart] at hstart
  rw [Contains]
  omega

end Region

/-! ## The invariant -/

namespace Arena

/-- Maps, regions and counters describe the same ledger. -/
structure Recorded (arena : Arena) (ledger : Finset Block) : Prop where
  units_pos : ∀ b ∈ ledger, 0 < b.units
  aligned : ∀ b ∈ ledger, 16 ∣ b.start
  held : ∀ b ∈ ledger, ∃ slot region, Has arena.heap.regions slot region ∧ region.Holds b
  apart : ∀ b ∈ ledger, ∀ c ∈ ledger, b ≠ c → b.Apart c
  mapped : ∀ slot region, Has arena.heap.regions slot region →
    region.Mapped arena.memory ledger
  used : ∀ slot region, Has arena.heap.regions slot region →
    region.used = region.unitsHeld ledger
  bytes : arena.heap.allocatedBytes.value = UInt64.ofNat (16 * ∑ b ∈ ledger, b.units)
  live : arena.heap.liveAllocations.value = UInt64.ofNat ledger.card

variable {arena : Arena} {outside : Finset ℕ} {ledger : Finset Block} {slot : ℕ} {region : Region}

theorem Framed.not_covers_of_ne
    (h : arena.Framed outside) {other : ℕ} {region' : Region}
    (hhas : Has arena.heap.regions slot region) (hhas' : Has arena.heap.regions other region')
    (hne : slot ≠ other) {b : Block} (hb : region.Holds b) {n : ℕ}
    (hlow : region'.start ≤ n) (hhigh : n < region'.stop) : ¬ b.Covers n := by
  have hapart := h.regions_apart hhas hhas' hne
  obtain ⟨hstart, hstop⟩ := hb
  rw [Region.bodyStart, Region.unitStart] at hstart
  rintro ⟨hn, hn'⟩
  omega

theorem Framed.slot_eq_of_holds
    (h : arena.Framed outside) {other : ℕ} {region' : Region}
    (hhas : Has arena.heap.regions slot region) (hhas' : Has arena.heap.regions other region')
    {b : Block} (hpos : 0 < b.units) (hb : region.Holds b) (hb' : region'.Holds b) :
    slot = other :=
  h.slot_eq_of_contains slot other region region' hhas hhas' (hb.contains hpos)
    (hb'.contains hpos)

theorem recorded_of_empty {map : DirectMap} (hheap : arena.heap = Heap.empty map) :
    arena.Recorded ∅ := by
  have hnone (slot : ℕ) (region : Region) : ¬ Has arena.heap.regions slot region := by
    rw [hheap]
    exact not_has_replicate _
  refine ⟨by simp, by simp, by simp, by simp, ?_, ?_, ?_, ?_⟩
  · exact fun slot region hhas => absurd hhas (hnone slot region)
  · exact fun slot region hhas => absurd hhas (hnone slot region)
  · rw [hheap]
    rfl
  · rw [hheap]
    rfl

namespace Recorded

variable (h : arena.Recorded ledger)
include h

/-- Blocks at the same address are the same. -/
theorem eq_of_start
    {b c : Block} (hb : b ∈ ledger) (hc : c ∈ ledger) (heq : b.start = c.start) : b = c := by
  by_contra hne
  have hapart := h.apart b hb c hc hne
  have hbpos := h.units_pos b hb
  have hcpos := h.units_pos c hc
  simp only [Block.Apart, Block.stop] at hapart
  omega

/-- An address names at most one block. -/
theorem filter_address_ne {b : Block} (hb : b ∈ ledger) :
    ledger.filter (·.address ≠ b.address) = ledger.erase b := by
  ext c
  rw [mem_filter, mem_erase]
  constructor
  · rintro ⟨hc, hne⟩
    exact ⟨fun heq => hne (congrArg Block.address heq), hc⟩
  · rintro ⟨hne, hc⟩
    refine ⟨hc, fun heq => hne (h.eq_of_start hc hb ?_)⟩
    rw [Block.start, Block.start, heq]

/-- Blocks with a common byte are the same. -/
theorem eq_of_covers
    {b c : Block} {n : ℕ} (hb : b ∈ ledger) (hc : c ∈ ledger) (hbn : b.Covers n)
    (hcn : c.Covers n) : b = c := by
  by_contra hne
  have hapart := h.apart b hb c hc hne
  simp only [Block.Apart, Block.Covers] at hapart hbn hcn
  omega

/-- A block that has a unit of a region lies in it. -/
theorem holds_of_covers
    (hframed : arena.Framed outside) (hhas : Has arena.heap.regions slot region)
    {b : Block} (hb : b ∈ ledger) {i : ℕ} (hi : i < region.units)
    (hcovers : b.Covers (region.unitStart i)) : region.Holds b := by
  obtain ⟨other, region', hhas', hholds⟩ := h.held b hb
  have hunit := region.unitStart_between hi
  have hslot : other = slot := by
    by_contra hne
    exact hframed.not_covers_of_ne hhas' hhas hne hholds hunit.1 hunit.2 hcovers
  subst hslot
  rwa [hhas.unique hhas']

/-- The maps show each block of the ledger with its own extent. -/
theorem extent_eq
    (hframed : arena.Framed outside) (hhas : Has arena.heap.regions slot region)
    {first last : ℕ} (hextent : region.Extent arena.memory first last) :
    ∃ b ∈ ledger, b.start = region.unitStart first ∧ first + b.units = last ∧
      region.Holds b := by
  have hregion := (hframed.valid slot region hhas).toAddressable
  have hmapped := h.mapped slot region hhas
  have hlow := hextent.body
  have hne := hextent.nonempty
  have hinside := hextent.inside
  obtain ⟨b, hb, hstart⟩ := (hmapped.head first (by omega)).1 hextent.head
  have hpos := h.units_pos b hb
  have hstart_covers : b.Covers (region.unitStart first) := Block.covers_of_start hpos hstart
  have hholds := h.holds_of_covers hframed hhas hb (by omega) hstart_covers
  have hbstop : b.stop = region.unitStart (first + b.units) := by
    rw [Block.stop, hstart, Region.unitStart, Region.unitStart]
    omega
  have hbinside : first + b.units ≤ region.units := by
    have := hholds.2
    rw [hbstop, ← region.unitStart_units, Region.unitStart, Region.unitStart] at this
    omega
  refine ⟨b, hb, hstart, ?_, hholds⟩
  rcases lt_trichotomy (first + b.units) last with hlt | heq | hgt
  · -- the unit behind the block would be used without being a head
    exfalso
    obtain ⟨hused, hhead⟩ := hextent.tail (first + b.units) (by omega) hlt
    rcases (hmapped.used _ (by omega)).1 hused with hreserved | ⟨c, hc, hcovers⟩
    · omega
    · have hbc : b ≠ c := by
        rintro rfl
        rw [Block.Covers, hbstop] at hcovers
        omega
      have hcstart : c.start = region.unitStart (first + b.units) := by
        have hapart := h.apart b hb c hc hbc
        have hunit : region.unitStart first < region.unitStart (first + b.units) := by
          rw [Region.unitStart, Region.unitStart]
          omega
        rw [Block.Apart, hbstop, hstart] at hapart
        rw [Block.Covers] at hcovers
        omega
      rw [(hmapped.head _ (by omega)).2 ⟨c, hc, hcstart⟩] at hhead
      cases hhead
  · exact heq
  · -- the block would end before its own last unit
    exfalso
    have hlast : b.Covers (region.unitStart last) := by
      rw [Block.Covers, hbstop, hstart]
      simp only [Region.unitStart]
      omega
    rcases hextent.ends (by omega) with hfree | hhead
    · rw [(hmapped.used last (by omega)).2 (Or.inr ⟨b, hb, hlast⟩)] at hfree
      cases hfree
    · obtain ⟨c, hc, hcstart⟩ := (hmapped.head last (by omega)).1 hhead
      have hcpos := h.units_pos c hc
      have hcovers := Block.covers_of_start hcpos hcstart
      have hbc := h.eq_of_covers hb hc hlast hcovers
      rw [← hbc, hstart, Region.unitStart, Region.unitStart] at hcstart
      omega

theorem exists_head
    (hframed : arena.Framed outside) {b : Block} (hb : b ∈ ledger) :
    ∃ slot region first, Has arena.heap.regions slot region ∧
      b.address.val.toNat = region.unitStart first ∧ region.reserved ≤ first ∧
      first < region.units ∧ region.headAt arena.memory first = true := by
  obtain ⟨slot, region, hhas, hholds⟩ := h.held b hb
  obtain ⟨first, hstart, hlow, hinside⟩ :=
    hholds.exists_unit (hframed.valid slot region hhas).toAddressable (h.aligned b hb)
  have hpos := h.units_pos b hb
  have hlt : first < region.units := by omega
  exact ⟨slot, region, first, hhas, hstart, hlow, hlt,
    ((h.mapped slot region hhas).head first hlt).2 ⟨b, hb, hstart⟩⟩

theorem of_frames {arena' : Arena} (hheap : arena'.heap = arena.heap)
    (hmemory : arena'.memory = arena.memory) : arena'.Recorded ledger where
  units_pos := h.units_pos
  aligned := h.aligned
  held := hheap ▸ h.held
  apart := h.apart
  mapped := by
    rw [hheap, hmemory]
    exact h.mapped
  used := hheap ▸ h.used
  bytes := hheap ▸ h.bytes
  live := hheap ▸ h.live

end Recorded

end Arena

end KernelMemory
