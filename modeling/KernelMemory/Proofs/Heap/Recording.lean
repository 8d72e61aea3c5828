import KernelMemory.Proofs.Heap.Blocks
import KernelMemory.Proofs.Heap.Ledger
import KernelMemory.Proofs.Heap.Release

/-!
# Keeping the ledger

Each step of the heap keeps the invariants: an allocation adds its block to the
ledger, a free takes the block of its address off it, growth and release leave
it alone, and so do stores that stay out of the maps.
-/

namespace KernelMemory.Arena

open Finset RegionTable

variable {arena arena' : Arena} {outside : Finset ℕ} {ledger : Finset Block}
variable {units align slot first : ℕ} {region : Region}

/-! ## Frames -/

theorem Places.framed
    (hplaces : arena.Places arena' units align slot region first) (h : arena.Framed outside) :
    arena'.Framed outside := by
  have hvalid : (region.withBlock units).Valid := by
    refine (h.valid slot region hplaces.has).recount rfl rfl ?_
    have hroom := hplaces.room
    change region.reserved + (region.used + units) ≤ region.units
    omega
  exact h.replace (region.withBlock units) hplaces.has rfl rfl hvalid hplaces.frames
    (by rw [hplaces.heap]; rfl) (by rw [hplaces.heap]; rfl)

theorem framed_of_freed
    {n : ℕ} (h : arena.Framed outside) (hhas : Has arena.heap.regions slot region)
    (hframes : arena'.frames = arena.frames)
    (hheap : arena'.heap =
      (arena.heap.setSlot slot (some (region.withoutBlock n))).discounting n) :
    arena'.Framed outside := by
  have hold := h.valid slot region hhas
  have hvalid : (region.withoutBlock n).Valid := by
    refine hold.recount rfl rfl ?_
    have hroom := hold.room
    change region.reserved + (region.used - n) ≤ region.units
    omega
  exact h.replace (region.withoutBlock n) hhas rfl rfl hvalid hframes (by rw [hheap]; rfl)
    (by rw [hheap]; rfl)

/-- The invariant on frames does not look at memory. -/
theorem Framed.of_eq
    (h : arena.Framed outside) (hframes : arena'.frames = arena.frames)
    (hmap : arena'.heap.map = arena.heap.map)
    (hregions : arena'.heap.regions = arena.heap.regions) : arena'.Framed outside :=
  h.setOutside (hframes ▸ h.sound) (by rw [hframes]) (by rw [hframes]) hmap hregions h.outside_apart
    (by rw [hframes]; exact h.leased)

theorem Allocates.framed
    {result : Result PhysAddr} (hallocates : Allocates arena units align result arena')
    (hreq : Region.Request units align) (h : arena.Framed outside) : arena'.Framed outside := by
  cases hallocates with
  | placed before places => exact places.framed h
  | grown full size leases places =>
      have hpos := hreq.framesFor_pos size
      exact places.framed (leases.framed h (by omega))
  | refused full stuck => exact h

/-- Clients go on seeing memory as before. -/
theorem Allocates.map_eq
    {result : Result PhysAddr} (hallocates : Allocates arena units align result arena') :
    arena'.heap.map = arena.heap.map := by
  cases hallocates with
  | placed before places =>
      rw [places.heap]
      rfl
  | grown full size leases places =>
      rw [places.heap, leases.heap]
      rfl
  | refused full stuck => rfl

theorem Places.isNull_eq_false
    (hplaces : arena.Places arena' units align slot region first) (hpos : 0 < units)
    (h : arena.Framed outside) :
    (arena.heap.map.toVirtual (region.unitAddress first)).isNull = false := by
  have hinside := hplaces.placement.least.1.inside
  exact h.isNull_eq_false_of_contains hplaces.has
    (Region.contains_of_unitStart (by omega) (hplaces.toNat_unitAddress h))

theorem Allocates.isNull_eq_false
    {pa : PhysAddr} (hallocates : Allocates arena units align (.ok pa) arena')
    (hreq : Region.Request units align) (h : arena.Framed outside) :
    (arena.heap.map.toVirtual pa).isNull = false := by
  have hpos := hreq.units_pos
  cases hallocates with
  | placed before places => exact places.isNull_eq_false hpos h
  | grown full size leases places =>
      have hframed := leases.framed h (by have := hreq.framesFor_pos size; omega)
      have hnull := places.isNull_eq_false hpos hframed
      rw [leases.heap] at hnull
      exact hnull

theorem Frees.framed
    {pa : PhysAddr} {result : Result Unit} (hfrees : Frees arena pa result arena')
    (h : arena.Framed outside) : arena'.Framed outside := by
  cases hfrees with
  | freed has address removal held frames heap => exact framed_of_freed h has frames heap
  | overdrawn has address removal held => exact h.of_eq rfl rfl rfl
  | unknown none => exact h

/-! ## Stores and growth -/

/-- Stores that stay out of the maps keep the ledger. -/
theorem Recorded.of_store
    (h : arena.Recorded ledger) (hframed : arena.Framed outside)
    (hheap : arena'.heap = arena.heap)
    (hkept : ∀ slot region qa, Has arena.heap.regions slot region → region.InMaps qa →
      arena'.memory.get qa = arena.memory.get qa) :
    arena'.Recorded ledger := by
  refine ⟨h.units_pos, h.aligned, ?_, h.apart, ?_, ?_, ?_, ?_⟩
  · rw [hheap]
    exact h.held
  · intro j r hr
    rw [hheap] at hr
    exact (h.mapped j r hr).congr (hframed.valid j r hr).toAddressable
      fun qa hqa => hkept j r qa hr hqa
  · rw [hheap]
    exact h.used
  · rw [hheap]
    exact h.bytes
  · rw [hheap]
    exact h.live

/-- An edit of one region's maps keeps the maps of the others. -/
theorem Framed.get_of_mapsWritten
    (h : arena.Framed outside) (hhas : Has arena.heap.regions slot region)
    {m m' : Memory} {used head : ℕ → Bool} (hwritten : region.MapsWritten m m' used head)
    {other : ℕ} {region' : Region} (hhas' : Has arena.heap.regions other region')
    (hne : other ≠ slot) (qa : PhysAddr) (hqa : region'.InMaps qa) : m'.get qa = m.get qa := by
  apply hwritten.kept
  intro hin
  exact hne (h.slot_eq_of_contains other slot region' region hhas' hhas
    (Region.contains_of_inMaps hqa) (Region.contains_of_inMaps hin))

theorem Adopts.recorded
    {outside' : Finset ℕ} (hadopts : arena.Adopts arena' slot region)
    (hframed : arena.Framed outside) (hframed' : arena'.Framed outside')
    (h : arena.Recorded ledger) : arena'.Recorded ledger := by
  -- every block lies in a region that was there before
  have hfar (b : Block) (hb : b ∈ ledger) (n : ℕ)
      (hn : region.start ≤ n ∧ n < region.stop) : ¬ b.Covers n := by
    obtain ⟨j, r, hr, hholds⟩ := h.held b hb
    have hj := hadopts.ne_of_has hr
    exact hframed'.not_covers_of_ne (hadopts.has_iff.2 (Or.inr ⟨hj, hr⟩)) hadopts.has hj hholds
      hn.1 hn.2
  have hmapped : region.Mapped arena'.memory ledger := by
    refine ⟨fun i hi => ?_, fun i hi => ?_⟩
    · rw [hadopts.maps.used i hi, decide_eq_true_eq, or_iff_left]
      rintro ⟨b, hb, hcovers⟩
      exact hfar b hb _ (region.unitStart_between hi) hcovers
    · rw [hadopts.maps.head i hi]
      refine iff_of_false Bool.false_ne_true ?_
      rintro ⟨b, hb, hstart⟩
      exact hfar b hb _ (region.unitStart_between hi)
        (Block.covers_of_start (h.units_pos b hb) hstart)
  have hblocks : region.blocksOf ledger = ∅ := by
    refine filter_false_of_mem fun b hb hholds => ?_
    have hpos := h.units_pos b hb
    exact hfar b hb _ (hholds.contains hpos) (Block.covers_of_start hpos rfl)
  refine ⟨h.units_pos, h.aligned, ?_, h.apart, ?_, ?_, ?_, ?_⟩
  · intro b hb
    obtain ⟨j, r, hr, hholds⟩ := h.held b hb
    exact ⟨j, r, hadopts.has_iff.2 (Or.inr ⟨hadopts.ne_of_has hr, hr⟩), hholds⟩
  · intro j r hr
    rcases hadopts.has_iff.1 hr with ⟨-, rfl⟩ | ⟨hj, hold⟩
    · exact hmapped
    · exact (h.mapped j r hold).congr (hframed.valid j r hold).toAddressable
        (hframed'.get_of_mapsWritten hadopts.has hadopts.maps hr hj)
  · intro j r hr
    rcases hadopts.has_iff.1 hr with ⟨-, rfl⟩ | ⟨-, hold⟩
    · rw [hadopts.used, Region.unitsHeld, hblocks, sum_empty]
    · exact h.used j r hold
  · rw [hadopts.heap]
    exact h.bytes
  · rw [hadopts.heap]
    exact h.live

theorem Leases.recorded
    {count index : ℕ} (hleases : arena.Leases arena' count slot index region)
    (hpos : 0 < count) (hframed : arena.Framed outside) (h : arena.Recorded ledger) :
    arena'.Recorded ledger :=
  hleases.adopts.recorded hframed (hleases.framed hframed hpos) h

/-! ## Blocks -/

/-- An edit of one region, after which its maps and its record describe a
ledger that differs only in blocks of that region. -/
theorem Recorded.edit
    {ledger' : Finset Block} {used head : ℕ → Bool} (region' : Region)
    (h : arena.Recorded ledger) (hframed : arena.Framed outside)
    (hhas : Has arena.heap.regions slot region)
    (hbase : region'.base = region.base) (hsize : region'.frames = region.frames)
    (hregions : arena'.heap.regions = arena.heap.regions.set slot (some region'))
    (hwritten : region.MapsWritten arena.memory arena'.memory used head)
    (hsame : ∀ b, ¬ region.Holds b → (b ∈ ledger' ↔ b ∈ ledger))
    (hpos : ∀ b ∈ ledger', 0 < b.units) (haligned : ∀ b ∈ ledger', 16 ∣ b.start)
    (hheld : ∀ b ∈ ledger', ∃ slot region, Has arena.heap.regions slot region ∧ region.Holds b)
    (hapart : ∀ b ∈ ledger', ∀ c ∈ ledger', b ≠ c → b.Apart c)
    (hmapped : region.Mapped arena'.memory ledger')
    (hcount : region'.used = region.unitsHeld ledger')
    (hbytes : arena'.heap.allocatedBytes.value = UInt64.ofNat (16 * ∑ b ∈ ledger', b.units))
    (hlive : arena'.heap.liveAllocations.value = UInt64.ofNat ledger'.card) :
    arena'.Recorded ledger' := by
  obtain ⟨base, frames, count⟩ := region
  obtain ⟨base', frames', count'⟩ := region'
  cases hbase
  cases hsize
  have hhas_iff (j : ℕ) (r : Region) : Has arena'.heap.regions j r ↔
      (j = slot ∧ ⟨base, frames, count'⟩ = r) ∨ (j ≠ slot ∧ Has arena.heap.regions j r) := by
    rw [hregions, has_set_iff hhas.lt, Option.some.injEq]
  have hunits : ∀ b ∈ ledger ∪ ledger', 0 < b.units := fun b hb =>
    (mem_union.1 hb).elim (h.units_pos b) (hpos b)
  refine ⟨hpos, haligned, ?_, hapart, ?_, ?_, hbytes, hlive⟩
  · intro b hb
    obtain ⟨j, r, hr, hholds⟩ := hheld b hb
    by_cases hj : j = slot
    · subst hj
      cases hhas.unique hr
      exact ⟨j, ⟨base, frames, count'⟩, (hhas_iff _ _).2 (Or.inl ⟨rfl, rfl⟩), hholds⟩
    · exact ⟨j, r, (hhas_iff j r).2 (Or.inr ⟨hj, hr⟩), hholds⟩
  · intro j r hr
    rcases (hhas_iff j r).1 hr with ⟨rfl, rfl⟩ | ⟨hj, hr⟩
    · exact ⟨hmapped.used, hmapped.head⟩
    · -- the maps of the other regions are kept, and show the same blocks
      have hkept := (h.mapped j r hr).congr (hframed.valid j r hr).toAddressable
        (hframed.get_of_mapsWritten hhas hwritten hr hj)
      refine hkept.of_ledger hunits fun b i hi hcovers => hsame b fun hholds => ?_
      have hunit := r.unitStart_between hi
      exact hframed.not_covers_of_ne hhas hr hj.symm hholds hunit.1 hunit.2 hcovers
  · intro j r hr
    rcases (hhas_iff j r).1 hr with ⟨rfl, rfl⟩ | ⟨hj, hr⟩
    · exact hcount
    · rw [h.used j r hr]
      refine (Region.unitsHeld_congr fun b hb hholds => hsame b fun hin => hj ?_).symm
      exact hframed.slot_eq_of_holds hr hhas (hunits b hb) hholds hin

theorem Recorded.reserved_le_of_fits
    {t : ℕ} (h : arena.Recorded ledger) (hhas : Has arena.heap.regions slot region)
    (hunits : 0 < units) (hfits : region.Fits arena.memory units align t) :
    region.reserved ≤ t := by
  by_contra hlow
  have hinside := hfits.inside
  have hclear := hfits.clear t (Nat.le_refl t) (by omega)
  rw [((h.mapped slot region hhas).used t (by omega)).2 (Or.inl (by omega))] at hclear
  cases hclear

/-- No block meets a free run. -/
theorem Recorded.not_covers_of_fits
    {t : ℕ} (h : arena.Recorded ledger) (hhas : Has arena.heap.regions slot region)
    (hfits : region.Fits arena.memory units align t) {b : Block} (hb : b ∈ ledger) {i : ℕ}
    (hlow : t ≤ i) (hhigh : i < t + units) : ¬ b.Covers (region.unitStart i) := by
  intro hcovers
  have hinside := hfits.inside
  have hclear := hfits.clear i hlow hhigh
  rw [((h.mapped slot region hhas).used i (by omega)).2 (Or.inr ⟨b, hb, hcovers⟩)] at hclear
  cases hclear

theorem Recorded.apart_of_fits
    {t : ℕ} (h : arena.Recorded ledger) (hframed : arena.Framed outside)
    (hhas : Has arena.heap.regions slot region) (hunits : 0 < units)
    (hfits : region.Fits arena.memory units align t) {b : Block} (hb : b ∈ ledger) :
    (region.block t units).Apart b := by
  have hregion := (hframed.valid slot region hhas).toAddressable
  have hlow := h.reserved_le_of_fits hhas hunits hfits
  have hinside := hfits.inside
  have hpos := h.units_pos b hb
  obtain ⟨j, r, hr, hholds⟩ := h.held b hb
  rw [Block.Apart, hregion.start_block (by omega), hregion.stop_block (by omega)]
  by_cases hj : j = slot
  · subst hj
    cases hhas.unique hr
    -- both are runs of units, so they would share a unit
    obtain ⟨k, hstart, -, -⟩ := hholds.exists_unit hregion (h.aligned b hb)
    by_contra hmeet
    refine h.not_covers_of_fits hhas hfits hb (i := max t k) (by omega) ?_ ?_
    · rw [Block.stop, hstart] at hmeet
      simp only [Region.unitStart] at hmeet
      omega
    · rw [Block.Covers, Block.stop, hstart]
      rw [Block.stop, hstart] at hmeet
      simp only [Region.unitStart] at hmeet ⊢
      omega
  · have hapart := hframed.regions_apart hhas hr (Ne.symm hj)
    obtain ⟨hbstart, hbstop⟩ := hholds
    rw [Region.bodyStart, Region.unitStart] at hbstart
    rw [← region.unitStart_units] at hapart
    simp only [Region.unitStart] at hapart ⊢
    omega

/-- An allocation adds its block, which was not there. -/
theorem Places.recorded
    (hplaces : arena.Places arena' units align slot region first) (hunits : 0 < units)
    (hframed : arena.Framed outside) (h : arena.Recorded ledger) :
    region.block first units ∉ ledger ∧
      arena'.Recorded (insert (region.block first units) ledger) := by
  have hhas := hplaces.has
  have hregion := (hframed.valid slot region hhas).toAddressable
  have hfits := hplaces.placement.least.1
  have hlow := h.reserved_le_of_fits hhas hunits hfits
  have hinside := hfits.inside
  have hholds := hregion.holds_block hlow hinside
  have hnew : region.block first units ∉ ledger := by
    intro hb
    refine h.not_covers_of_fits hhas hfits hb (Nat.le_refl first) (by omega) ?_
    rw [hregion.covers_block_iff (by omega)]
    omega
  refine ⟨hnew, h.edit (region.withBlock units) hframed hhas rfl rfl
    (by rw [hplaces.heap]; rfl) hplaces.placement.maps ?_ ?_ ?_ ?_ ?_
    ((h.mapped slot region hhas).insert hregion hinside hplaces.placement.maps) ?_ ?_ ?_⟩
  · intro b hb
    rw [mem_insert, or_iff_right]
    rintro rfl
    exact hb hholds
  · intro b hb
    rcases mem_insert.1 hb with rfl | hb
    · exact hunits
    · exact h.units_pos b hb
  · intro b hb
    rcases mem_insert.1 hb with rfl | hb
    · have haligned := hregion.aligned
      rw [hregion.start_block (by omega), Region.unitStart]
      omega
    · exact h.aligned b hb
  · intro b hb
    rcases mem_insert.1 hb with rfl | hb
    · exact ⟨slot, region, hhas, hholds⟩
    · exact h.held b hb
  · intro b hb c hc hne
    rcases mem_insert.1 hb with rfl | hb <;> rcases mem_insert.1 hc with rfl | hc
    · exact absurd rfl hne
    · exact h.apart_of_fits hframed hhas hunits hfits hc
    · exact (h.apart_of_fits hframed hhas hunits hfits hb).symm
    · exact h.apart b hb c hc hne
  · rw [Region.unitsHeld_insert hnew hholds, ← h.used slot region hhas]
    exact Nat.add_comm _ _
  · rw [hplaces.heap, sum_insert hnew, Nat.mul_add, Nat.add_comm, UInt64.ofNat_add, ← h.bytes]
    rfl
  · rw [hplaces.heap, card_insert_of_notMem hnew, UInt64.ofNat_add, ← h.live]
    rfl

/-- The same where the heap may have grown first. -/
theorem Allocates.recorded
    {pa : PhysAddr} (h : Allocates arena units align (.ok pa) arena')
    (hreq : Region.Request units align) (hframed : arena.Framed outside)
    (hrecorded : arena.Recorded ledger) :
    ⟨pa, units⟩ ∉ ledger ∧ arena'.Recorded (insert ⟨pa, units⟩ ledger) := by
  cases h with
  | placed before places => exact places.recorded hreq.units_pos hframed hrecorded
  | grown full size leases places =>
      have hpos := hreq.framesFor_pos size
      have hleased := leases.recorded hpos hframed hrecorded
      exact places.recorded hreq.units_pos (leases.framed hframed hpos) hleased

/-- A free takes the block of its address off the ledger. -/
theorem Recorded.freed
    {pa : PhysAddr} {last : ℕ} (h : arena.Recorded ledger) (hframed : arena.Framed outside)
    (hhas : Has arena.heap.regions slot region)
    (hpa : pa.val.toNat = region.unitStart first)
    (hremoval : region.Removal arena.memory arena'.memory first last)
    (hheap : arena'.heap = (arena.heap.setSlot slot
      (some (region.withoutBlock (last - first)))).discounting (last - first)) :
    ∃ b ∈ ledger, b.address = pa ∧ arena'.Recorded (ledger.erase b) := by
  obtain ⟨b, hb, hstart, hlast, hholds⟩ := h.extent_eq hframed hhas hremoval.extent
  have hunits : last - first = b.units := by omega
  rw [hunits] at hheap
  have haddress : b.address = pa := Address.eq_of_toNat (hstart.trans hpa.symm)
  have hmapped := (h.mapped slot region hhas).erase hstart hlast hremoval.extent.body
    (h.units_pos b hb) (fun c hc n hbn hcn => h.eq_of_covers hc hb hcn hbn) h.units_pos
    hremoval.maps
  have hsum := add_sum_erase ledger Block.units hb
  have hcard := card_erase_add_one hb
  refine ⟨b, hb, haddress, h.edit (region.withoutBlock b.units) hframed hhas rfl rfl
    (by rw [hheap]; rfl) hremoval.maps ?_ ?_ ?_ ?_ ?_ hmapped ?_ ?_ ?_⟩
  · intro c hc
    rw [mem_erase, and_iff_right]
    rintro rfl
    exact hc hholds
  · exact fun c hc => h.units_pos c (mem_of_mem_erase hc)
  · exact fun c hc => h.aligned c (mem_of_mem_erase hc)
  · exact fun c hc => h.held c (mem_of_mem_erase hc)
  · exact fun c hc d hd => h.apart c (mem_of_mem_erase hc) d (mem_of_mem_erase hd)
  · have hused := h.used slot region hhas
    have herase := Region.unitsHeld_erase hb hholds
    change region.used - b.units = _
    omega
  · rw [hheap]
    change arena.heap.allocatedBytes.value - UInt64.ofNat (16 * b.units) = _
    rw [h.bytes, ← hsum, Nat.mul_add, Nat.add_comm, UInt64.ofNat_add, UInt64.add_sub_cancel]
  · rw [hheap]
    change arena.heap.liveAllocations.value - 1 = _
    rw [h.live, ← hcard, UInt64.ofNat_add]
    exact UInt64.add_sub_cancel _ _

/-- In an arena whose maps describe a ledger, no free finds more than its
region is known to hold. -/
theorem Recorded.held_of_extent
    {last : ℕ} (h : arena.Recorded ledger) (hframed : arena.Framed outside)
    (hhas : Has arena.heap.regions slot region)
    (hextent : region.Extent arena.memory first last) : last - first ≤ region.used := by
  obtain ⟨b, hb, -, hlast, hholds⟩ := h.extent_eq hframed hhas hextent
  have herase := Region.unitsHeld_erase hb hholds
  rw [h.used slot region hhas]
  omega

/-- A release takes off no region that holds a block. -/
theorem Released.recorded
    {slots : List ℕ} {n : ℕ} (hreleased : Released arena arena' slots n)
    (h : arena.Recorded ledger) : arena'.Recorded ledger := by
  refine ⟨h.units_pos, h.aligned, ?_, h.apart, ?_, ?_, ?_, ?_⟩
  · intro b hb
    obtain ⟨j, r, hr, hholds⟩ := h.held b hb
    refine ⟨j, r, (hreleased.has_iff j r).2 ⟨hr, fun hgone => ?_⟩, hholds⟩
    have hused := h.used j r hr
    have hpos := h.units_pos b hb
    have herase := Region.unitsHeld_erase hb hholds
    omega
  · intro j r hr
    rw [hreleased.memory]
    exact h.mapped j r ((hreleased.has_iff j r).1 hr).1
  · intro j r hr
    exact h.used j r ((hreleased.has_iff j r).1 hr).1
  · rw [hreleased.allocatedBytes]
    exact h.bytes
  · rw [hreleased.liveAllocations]
    exact h.live

end KernelMemory.Arena
