import KernelMemory.Proofs.World.Boot
import KernelMemory.Proofs.World.Freeing
import KernelMemory.Proofs.World.Refusals

/-!
# Requests that cannot break the allocators

Machine arithmetic that leaves its range, a failed assertion and a refusal of a
bitmap in the middle of an operation would all show as a fault or as a refusal
that the call does not announce.  As long as nobody stores to the maps and
nobody returns frames of somebody else, no call gets there, whatever its
arguments: `Reachable.faultless` says that every call ends and concludes, and
that the one fault there is comes from taking back a block that is not live.
-/

namespace KernelMemory

open Arena Program RegionTable

/-- A section that ends without a failure. -/
def Section.Delivers {σ α : Type} (body : Section σ α) (s : σ) : Prop :=
  ∃ a s', body.perform s = (.ok a, s')

theorem Section.Delivers.of_perform
    {σ α : Type} {body : Section σ α} {s s' : σ} {a : α} (h : body.perform s = (.ok a, s')) :
    body.Delivers s :=
  ⟨a, s', h⟩

/-! ## Sections -/

theorem Region.delivers_place
    {region : Region} {map : DirectMap} {units align : ℕ} (hvalid : region.Valid)
    (hvisible : region.Visible map) (hreq : Region.Request units align)
    (hroom : region.reserved + region.used + units ≤ region.units) (m : Memory) :
    (region.place map units align).Delivers m := by
  have hheld : region.used + units < Word.count := by
    have := Arena.units_lt_count hvalid (n := region.used + units) (by omega)
    omega
  rcases Region.perform_place_cases hvalid.toAddressable hvisible hreq hheld m with
    ⟨first, m', -, hrun⟩ | ⟨-, hrun⟩
  · exact .of_perform hrun
  · exact .of_perform hrun

theorem FramePool.delivers_reclaim (pool : FramePool) (index count : ℕ) :
    (FramePool.reclaim index count).Delivers pool := by
  by_cases hleased : 0 < count ∧ index + count ≤ pool.bitmap.units ∧
      Finset.Ico index (index + count) ⊆ pool.leasedFrames
  · obtain ⟨hpos, hinside, hsubset⟩ := hleased
    exact .of_perform (perform_reclaim_of_leased hpos hinside hsubset)
  · exact .of_perform (perform_reclaim_of_not hleased)

namespace World

variable {w : World}

/-- Removing meets no refusal of the maps, and finds no block larger than what
its region is known to hold. -/
theorem Tracked.delivers_remove
    (ht : w.Tracked) (hw : w.Orderly) {slot : ℕ} {region : Region}
    (hhas : Has w.regions slot region) (pa : PhysAddr) :
    (region.remove w.heap.map pa).Delivers w.memory := by
  have hvalid := hw.framed.valid slot region hhas
  have hvisible := hw.framed.visible slot region hhas
  rcases Region.perform_remove_cases hvalid.toAddressable hvisible pa w.memory with
    ⟨first, last, m', -, hremoval, hrun⟩ | ⟨-, hrun⟩
  · rw [if_pos (ht.recorded.held_of_extent hw.framed hhas hremoval.extent)] at hrun
    exact .of_perform hrun
  · exact .of_perform hrun

/-! ## Calls that free a block -/

/-- A pointer leads to a live block. -/
def Leads (w : World) (pointer : VirtAddr) : Prop :=
  ∃ b ∈ w.ledger, b.address = w.heap.map.toPhysical pointer

/-- A free behind a pointer frees the block that it leads to. -/
theorem Tracked.freePointer_cases
    (ht : w.Tracked) (hw : w.Orderly) {pointer : VirtAddr} (hnull : pointer.isNull = false) :
    (w.Leads pointer ∧ ∃ arena',
      (freePointer pointer).Yields w.machine.locks w.arena (.ok ()) arena') ∨
    (¬ w.Leads pointer ∧ (freePointer pointer).Yields w.machine.locks w.arena
      (.refuse (.invalidFree (w.heap.map.toPhysical pointer))) w.arena) := by
  obtain ⟨result, arena', hrun, hcases⟩ := ht.free_cases hw (w.heap.map.toPhysical pointer)
  have hyields := freePointer_yields hnull hrun
  rcases hcases with ⟨hlive, rfl⟩ | ⟨hnone, rfl, rfl⟩
  · exact Or.inl ⟨hlive, arena', hyields⟩
  · exact Or.inr ⟨hnone, hyields⟩

/-- Every call but one ends and concludes. -/
theorem Tracked.concludes
    (ht : w.Tracked) (hw : w.Orderly) {call : Call} (hcall : ∀ pointer, call ≠ .dealloc pointer) :
    ∃ result arena', call.program.Yields w.machine.locks w.arena result arena' ∧
      call.Concludes w.heap.map result := by
  by_cases hfreed : call.freed? w.heap.map = none
  · exact hw.concludes hfreed
  cases call with
  | free pa =>
      obtain ⟨result, arena', hrun, hcases⟩ := ht.free_cases hw pa
      rcases hcases with ⟨-, rfl⟩ | ⟨-, rfl, -⟩
      · exact ⟨_, _, hrun, Call.concludes_ok _⟩
      · exact ⟨_, _, hrun, Call.concludes_refuse .free⟩
  | freePointer pointer =>
      have hnull : pointer.isNull = false := by
        by_contra hnot
        exact hfreed (if_pos (Bool.eq_true_of_not_eq_false hnot))
      rcases ht.freePointer_cases hw hnull with ⟨-, arena', hrun⟩ | ⟨-, hrun⟩
      · exact ⟨_, _, hrun, Call.concludes_ok _⟩
      · exact ⟨_, _, hrun, Call.concludes_refuse (.freePointer hnull)⟩
  | dealloc pointer => exact absurd rfl (hcall pointer)
  | _ => exact absurd rfl hfreed

/-- Taking back a block faults exactly for a pointer, other than the null
pointer, that leads to no live block, and then changes nothing. -/
theorem Tracked.dealloc_cases (ht : w.Tracked) (hw : w.Orderly) (pointer : VirtAddr) :
    ((pointer.isNull = true ∨ w.Leads pointer) ∧ ∃ arena',
      (dealloc pointer).Yields w.machine.locks w.arena (.ok ()) arena') ∨
    ((pointer.isNull = false ∧ ¬ w.Leads pointer) ∧
      (dealloc pointer).Yields w.machine.locks w.arena (.fault .foreignDealloc) w.arena) := by
  by_cases hnull : pointer.isNull = true
  · have hnothing := freePointer_null_yields hnull w.machine.locks w.arena
    exact Or.inl ⟨Or.inl hnull, _, hnothing.outcome_ok.bind (yields_pure ())⟩
  · rw [Bool.not_eq_true] at hnull
    rcases ht.freePointer_cases hw hnull with ⟨hlive, arena', hrun⟩ | ⟨hnone, hrun⟩
    · exact Or.inl ⟨Or.inr hlive, _, hrun.outcome_ok.bind (yields_pure ())⟩
    · exact Or.inr ⟨⟨hnull, hnone⟩, hrun.outcome_refused.bind (yields_ofResult _)⟩

/-! ## Every request -/

/-- No request breaks the allocators. -/
structure Faultless (w : World) : Prop where
  /-- Every call ends, and delivers or refuses as it announces. -/
  calls : ∀ call : Call, (∀ pointer, call ≠ .dealloc pointer) → ∃ result machine,
    call.program.run w.machine = some (result, machine) ∧ machine.locks = w.machine.locks ∧
    call.Concludes w.heap.map result
  drop : ∃ machine, teardown.run w.machine = some (.ok (), machine)
  deallocs : ∀ pointer, ∃ result machine,
    (dealloc pointer).run w.machine = some (result, machine) ∧
    machine.locks = w.machine.locks ∧
    ((∃ failure, result = .error failure) ↔
      pointer.isNull = false ∧ ¬ w.Leads pointer) ∧
    ∀ failure, result = .error failure →
      failure = .fault .foreignDealloc ∧ machine.state = w.arena
  /-- A new region goes to a slot of the table. -/
  slots : ∀ slot, w.heap.emptySlot? = some slot → slot < w.regions.length
  places : ∀ slot region units align, Has w.regions slot region → Region.Request units align →
    region.reserved + region.used + units ≤ region.units →
    (region.place w.heap.map units align).Delivers w.memory
  removes : ∀ slot region pa, Has w.regions slot region →
    (region.remove w.heap.map pa).Delivers w.memory
  formats : ∀ region : Region, region.OnFrames w.frames → 0 < region.frames →
    ∀ memory, (region.format w.heap.map).Delivers memory
  reclaims : ∀ index count, (FramePool.reclaim index count).Delivers w.frames

theorem Faultless.of_tracked (ht : w.Tracked) (hw : w.Orderly) : w.Faultless where
  calls := by
    intro call hcall
    obtain ⟨result, arena', hrun, hconcludes⟩ := ht.concludes hw hcall
    obtain ⟨machine, hmachine, hlocks, -⟩ := hrun.exists_run
    exact ⟨result, machine, hmachine, hlocks, hconcludes⟩
  drop := by
    obtain ⟨arena', outside, hrun, -⟩ := teardown_cases hw.framed (hw.locks .frames)
    obtain ⟨machine, hmachine, -⟩ := hrun.exists_run
    exact ⟨machine, hmachine⟩
  deallocs := by
    intro pointer
    rcases ht.dealloc_cases hw pointer with ⟨hlive, arena', hrun⟩ | ⟨hforeign, hrun⟩
    · obtain ⟨machine, hmachine, hlocks, -⟩ := hrun.exists_run
      refine ⟨_, machine, hmachine, hlocks, iff_of_false nofun ?_, nofun⟩
      rintro ⟨hnull, hnone⟩
      rcases hlive with hnull' | hlive
      · rw [hnull] at hnull'
        cases hnull'
      · exact hnone hlive
    · obtain ⟨machine, hmachine, hlocks, hstate⟩ := hrun.exists_run
      refine ⟨_, machine, hmachine, hlocks, iff_of_true ⟨_, rfl⟩ hforeign, ?_⟩
      intro failure hfailure
      cases hfailure
      exact ⟨rfl, hstate⟩
  slots := by
    intro slot hslot
    obtain ⟨hempty, -⟩ := Heap.emptySlot?_spec hslot
    exact (List.getElem?_eq_some_iff.1 hempty).1
  places := by
    intro slot region units align hhas hreq hroom
    exact Region.delivers_place (hw.framed.valid slot region hhas)
      (hw.framed.visible slot region hhas) hreq hroom w.memory
  removes := by
    intro slot region pa hhas
    exact ht.delivers_remove hw hhas pa
  formats := by
    intro region hon hpos memory
    have hvisible := hon.visible hw.framed.sound hw.framed.reaches hpos
    obtain ⟨memory', -, hrun⟩ :=
      Region.perform_format (hon.addressable hw.framed.sound hpos) hvisible memory
    exact .of_perform hrun
  reclaims := w.frames.delivers_reclaim

/-- As long as nobody stores to the maps and nobody returns frames of somebody
else, no request breaks the allocators, whatever its arguments. -/
theorem Reachable.faultless (h : Reachable Rules.offMaps w) : w.Faultless :=
  .of_tracked h.tracked_of_offMaps h.orderly

theorem leads_iff_of_ledger {b : Block} (hledger : w.ledger = {b}) (pointer : VirtAddr) :
    w.Leads pointer ↔ w.heap.map.toPhysical pointer = b.address := by
  simp [Leads, hledger, eq_comm]

/-- Two pointers do not lead to the same block. -/
theorem exists_not_leads {b : Block} (hledger : w.ledger = {b}) :
    ∃ pointer : VirtAddr, pointer.isNull = false ∧ ¬ w.Leads pointer := by
  by_cases hone : w.Leads ⟨1⟩
  · refine ⟨⟨2⟩, by decide, ?_⟩
    intro htwo
    rw [leads_iff_of_ledger hledger] at hone htwo
    have heq : w.heap.map.toVirtual (w.heap.map.toPhysical ⟨2⟩) =
        w.heap.map.toVirtual (w.heap.map.toPhysical ⟨1⟩) := by rw [htwo, hone]
    rw [DirectMap.toVirtual_toPhysical, DirectMap.toVirtual_toPhysical] at heq
    exact absurd heq (by decide)
  · exact ⟨⟨1⟩, by decide, hone⟩

/-- Somebody overwrites a heap, but not its maps.  Its first block is taken back
all the same, and taking back another pointer faults and changes nothing. -/
theorem exists_foreign_dealloc :
    ∃ (w : World) (live foreign : VirtAddr), Reachable Rules.offMaps w ∧ w.Faultless ∧
      w.ledger = {⟨⟨0x100400⟩, 7⟩} ∧ w.memory.get ⟨0x100800⟩ = 0xFF ∧ w.Leads live ∧
      (∃ machine, (dealloc live).run w.machine = some (.ok (), machine)) ∧
      ∃ machine, (dealloc foreign).run w.machine = some (.fault .foreignDealloc, machine) ∧
        machine.state = w.arena := by
  obtain ⟨w₀, w, hfresh, -, hstep, hledger, slot, hhas⟩ := exists_first_block Rules.offMaps
  have hw : Reachable Rules.offMaps w := .step (.fresh hfresh) hstep
  -- the address lies in the region, so in the maps of no other, and behind its own
  have hoff : Rules.offMaps.mayStore w ⟨0x100800⟩ := by
    intro slot' region hhas' hin
    have hslot : slot' = slot := hw.orderly.framed.slot_eq_of_contains slot' slot _ _ hhas' hhas
      (Region.contains_of_inMaps hin) (by decide)
    subst hslot
    cases hhas.unique hhas'
    exact absurd hin (by decide)
  obtain ⟨stored, hstored⟩ : ∃ stored, stored = w.stored ⟨0x100800⟩ 0xFF := ⟨_, rfl⟩
  have hreachable : Reachable Rules.offMaps stored := hstored ▸ hw.step (.store hoff)
  have hledger' : stored.ledger = {⟨⟨0x100400⟩, 7⟩} := by rw [hstored, ledger_stored, hledger]
  have hbyte : stored.memory.get ⟨0x100800⟩ = 0xFF := by
    rw [hstored]
    exact (Memory.get_set _ _ _ _).trans (if_pos rfl)
  have hfaultless := hreachable.faultless
  have hlive : stored.Leads (stored.heap.map.toVirtual ⟨0x100400⟩) := by
    rw [leads_iff_of_ledger hledger']
    exact DirectMap.toPhysical_toVirtual _ _
  obtain ⟨foreign, hnull, hforeign⟩ := exists_not_leads hledger'
  refine ⟨stored, _, foreign, hreachable, hfaultless, hledger', hbyte, hlive, ?_, ?_⟩
  · obtain ⟨result, machine, hrun, -, hiff, -⟩ :=
      hfaultless.deallocs (stored.heap.map.toVirtual ⟨0x100400⟩)
    cases result with
    | ok a => exact ⟨machine, hrun⟩
    | error failure => exact absurd hlive (hiff.1 ⟨failure, rfl⟩).2
  · obtain ⟨result, machine, hrun, -, hiff, hfault⟩ := hfaultless.deallocs foreign
    obtain ⟨failure, rfl⟩ := hiff.2 ⟨hnull, hforeign⟩
    obtain ⟨rfl, hstate⟩ := hfault failure rfl
    exact ⟨machine, hrun, hstate⟩

end World

end KernelMemory
