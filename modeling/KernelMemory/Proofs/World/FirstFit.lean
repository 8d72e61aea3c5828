import KernelMemory.Proofs.Heap.Tally
import KernelMemory.Proofs.World.Boot

/-!
# First fit

Where an allocation goes.  The heap passes over a region whose record shows too
few free units without reading its maps, and sizes a new region before it has
one; `FirstFit` says what a reader expects who sees only the maps and the frame
bitmap.  The main statement `Reachable.first_fit` says that both agree, and
that an allocation that is refused leaves no trace.
-/

namespace KernelMemory

open Arena RegionTable

namespace Heap

variable {heap : Heap} {slot : ℕ} {region region' : Region}

/-- The leases behind the slots of the table: where each region starts, and how
many frames it has. -/
def leases (heap : Heap) : List (Option (PhysAddr × ℕ)) :=
  heap.regions.map (Option.map fun region => (region.base, region.frames))

theorem leases_setSlot (content : Option Region) :
    (heap.setSlot slot content).leases =
      heap.leases.set slot (content.map fun region => (region.base, region.frames)) := by
  rw [leases, leases, setSlot, List.map_set]

theorem leases_getElem?_of_has (hhas : Has heap.regions slot region) :
    heap.leases[slot]? = some (some (region.base, region.frames)) := by
  rw [leases, List.getElem?_map, hhas]
  rfl

/-- What a region holds is no matter of its lease. -/
theorem leases_setSlot_of_has
    (hhas : Has heap.regions slot region) (hbase : region'.base = region.base)
    (hframes : region'.frames = region.frames) :
    (heap.setSlot slot (some region')).leases = heap.leases := by
  have hlt : slot < heap.leases.length := by
    rw [leases, List.length_map]
    exact hhas.lt
  have hself : heap.leases[slot] = some (region'.base, region'.frames) := by
    rw [hbase, hframes]
    exact (List.getElem?_eq_some_iff.1 (leases_getElem?_of_has hhas)).2
  rw [leases_setSlot, Option.map_some, ← hself, List.set_getElem_self]

end Heap

namespace Arena

variable {arena arena' : Arena} {units align count slot index first : ℕ} {region : Region}

theorem Places.leases_eq (h : arena.Places arena' units align slot region first) :
    arena'.heap.leases = arena.heap.leases := by
  rw [h.heap]
  exact Heap.leases_setSlot_of_has h.has rfl rfl

theorem Leases.leases_eq (h : arena.Leases arena' count slot index region) :
    arena'.heap.leases = arena.heap.leases.set slot (some (region.base, count)) := by
  rw [h.heap, Heap.leases_setSlot, ← h.size]
  rfl

end Arena

namespace World

variable {w : World} {units align : ℕ}

/-- The ways for an allocation of `units` units at a multiple of `align` to
end: at the lowest free run of the first region that has one, at the start of a
new region if none has, or refused if there is no slot or no frames for it. -/
inductive FirstFit (w : World) (units align : ℕ) : Result PhysAddr → Arena → Prop
  | existing {slot first : ℕ} {region : Region} {pa : PhysAddr} {arena' : Arena}
      (has : Has w.regions slot region)
      (before : ∀ j other, j < slot → Has w.regions j other →
        ∀ t, ¬ other.Fits w.memory units align t)
      (least : IsLeast {t | region.Fits w.memory units align t} first)
      (address : pa.val.toNat = region.start + 16 * first)
      (leases : arena'.heap.leases = w.heap.leases)
      (frames : arena'.frames = w.frames) :
      FirstFit w units align (.ok pa) arena'
  | grown {slot count index : ℕ} {base pa : PhysAddr} {arena' : Arena}
      (full : ∀ j other, Has w.regions j other → ∀ t, ¬ other.Fits w.memory units align t)
      (empty : w.regions[slot]? = some none)
      (lowest : ∀ j, j < slot → ∃ other, Has w.regions j other)
      (size : Region.framesFor units align = .ok count)
      (least : IsLeast {t | w.frames.bitmap.Fits count 1 t} index)
      (start : base.val.toNat = w.frames.frameStart index)
      (address : pa.val.toNat = base.val.toNat + 16 * (ceilDiv (4 * count) align * align))
      (leases : arena'.heap.leases = w.heap.leases.set slot (some (base, count)))
      (frames : ∃ h, arena'.frames = w.frames.leasing index count h) :
      FirstFit w units align (.ok pa) arena'
  | refused
      (full : ∀ j other, Has w.regions j other → ∀ t, ¬ other.Fits w.memory units align t)
      (stuck : (∀ j : ℕ, w.regions[j]? ≠ some none) ∨
        ∃ count, Region.framesFor units align = .ok count ∧
          ∀ t, ¬ w.frames.bitmap.Fits count 1 t) :
      FirstFit w units align (.refuse .outOfMemory) w.arena

/-- Where an allocation goes, as seen from the maps. -/
theorem Tracked.firstFit_of_allocates
    (ht : w.Tracked) (hw : w.Orderly) (hreq : Region.Request units align)
    {result : Result PhysAddr} {arena' : Arena}
    (hallocates : Allocates w.arena units align result arena') :
    w.FirstFit units align result arena' := by
  have hnofit {j : ℕ} {other : Region} (hhas : Has w.regions j other)
      (hnot : ¬ other.Admits w.memory units align) (t : ℕ) :
      ¬ other.Fits w.memory units align t :=
    fun hfits => hnot ⟨ht.recorded.room_of_fits hw.framed hhas hfits, t, hfits⟩
  cases hallocates with
  | @placed _ slot first region before places =>
      exact .existing places.has
        (fun j other hj hother => hnofit hother (before j other hj hother))
        places.placement.least (places.toNat_unitAddress hw.framed) places.leases_eq places.frames
  | @grown arena₁ _ count slot index first region full size leases places =>
      have hframed := leases.framed hw.framed (hreq.framesFor_pos size)
      have haddress : (region.unitAddress first).val.toNat =
          region.start + 16 * (ceilDiv (4 * count) align * align) := by
        rw [places.toNat_unitAddress hframed, Region.unitStart, leases.first_eq hreq size places]
      obtain ⟨hinside, hframes⟩ := leases.frames
      obtain ⟨hnone, hbefore⟩ := Heap.emptySlot?_spec leases.empty
      exact .grown (fun j other hother => hnofit hother (full j other hother)) hnone hbefore size
        leases.least leases.start haddress (places.leases_eq.trans leases.leases_eq)
        ⟨hinside, places.frames.trans hframes⟩
  | refused full stuck =>
      refine .refused (fun j other hother => hnofit hother (full j other hother)) ?_
      exact stuck.imp_left Heap.full_of_emptySlot?

/-! ## Alignment -/

/-- An alignment divides a frame, and what it is in units. -/
theorem align_dvd
    {align : ℕ} (hpow : align.isPowerOfTwo) (hle : align ≤ 4096) :
    align ∣ 4096 ∧ align ∣ 16 * max (align / 16) 1 := by
  obtain ⟨k, rfl⟩ := hpow
  have hk : k ≤ 12 := (Nat.pow_le_pow_iff_right (a := 2) (by decide)).1 hle
  refine ⟨Nat.pow_dvd_pow 2 hk, ?_⟩
  by_cases hk4 : 4 ≤ k
  · have hdvd : 16 ∣ 2 ^ k := Nat.pow_dvd_pow 2 hk4
    have hpos := Nat.two_pow_pos k
    rw [max_eq_left (by omega), Nat.mul_div_cancel' hdvd]
  · exact dvd_mul_of_dvd_left (Nat.pow_dvd_pow 2 (by omega : k ≤ 4)) _

theorem FirstFit.dvd
    (hw : w.Orderly) {align : ℕ} (hpow : align.isPowerOfTwo) (hle : align ≤ 4096)
    {pa : PhysAddr} {arena' : Arena}
    (h : w.FirstFit units (max (align / 16) 1) (.ok pa) arena') : align ∣ pa.val.toNat := by
  obtain ⟨hframe, hunit⟩ := align_dvd hpow hle
  have hbase := hw.framed.sound.aligned
  have hstart (i : ℕ) : align ∣ w.frames.frameStart i :=
    hframe.trans (Nat.dvd_add hbase (Nat.dvd_mul_right 4096 i))
  have hoffset {i : ℕ} (hi : max (align / 16) 1 ∣ i) : align ∣ 16 * i :=
    hunit.trans (Nat.mul_dvd_mul_left 16 hi)
  cases h with
  | existing has before least address leases frames =>
      rw [address, (hw.framed.onFrames _ _ has).start_eq]
      exact Nat.dvd_add (hstart _) (hoffset least.1.aligned)
  | grown full empty lowest size least start address leases frames =>
      rw [address, start]
      exact Nat.dvd_add (hstart _) (hoffset (Nat.dvd_mul_left _ _))

/-- In every reachable world, an allocation of a size and an alignment that the
heap supports delivers and goes by first fit: it takes the lowest aligned free
run of the first region that has one, or else the start of a new region, or
else is refused and changes nothing.  The address is aligned. -/
theorem Reachable.first_fit
    (h : Reachable Rules.tidy w) {size align : UInt64} (hsize : size ≠ 0)
    (hpow : align.toNat.isPowerOfTwo) (hle : align.toNat ≤ 4096) :
    ∃ result machine, (allocAligned size align).run w.machine = some (result, machine) ∧
      w.FirstFit (ceilDiv size.toNat 16) (max (align.toNat / 16) 1) result machine.state ∧
      ∀ pa, result = .ok pa → align.toNat ∣ pa.val.toNat := by
  have hw := h.orderly
  rcases allocAligned_cases hw.framed (hw.locks .heap) (hw.locks .frames) size align with
    ⟨hzero, -⟩ | ⟨-, hbad, -⟩ | ⟨-, -, -, result, arena', hallocates, hrun⟩
  · exact absurd hzero hsize
  · exact absurd ⟨hpow, hle⟩ hbad
  · obtain ⟨machine, hmachine, -, rfl⟩ := hrun.exists_run
    have hfit := h.tracked.firstFit_of_allocates hw (request_of_layout hsize hpow hle) hallocates
    refine ⟨result, machine, hmachine, hfit, ?_⟩
    rintro pa rfl
    exact hfit.dvd hw hpow hle

/-- Two units at a multiple of four, beside a first block of seven. -/
theorem exists_first_fit_beside_block :
    ∃ (w : World) (result : Result PhysAddr) (machine : Machine LockName Arena),
      Reachable Rules.tidy w ∧ w.ledger = {⟨⟨0x100400⟩, 7⟩} ∧
      (allocAligned 32 64).run w.machine = some (result, machine) ∧
      w.FirstFit 2 4 result machine.state ∧ ∀ pa, result = .ok pa → 64 ∣ pa.val.toNat := by
  obtain ⟨w, hw, hledger⟩ := exists_reachable_block Rules.tidy
  have hsize : (32 : UInt64) ≠ 0 := by decide
  have hpow : (64 : UInt64).toNat.isPowerOfTwo := ⟨6, rfl⟩
  have hle : (64 : UInt64).toNat ≤ 4096 := by decide
  obtain ⟨result, machine, hrun, hfit, haligned⟩ := hw.first_fit hsize hpow hle
  exact ⟨w, result, machine, hw, hledger, hrun, hfit, haligned⟩

end World

end KernelMemory
