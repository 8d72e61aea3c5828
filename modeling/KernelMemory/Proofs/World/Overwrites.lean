import KernelMemory.Proofs.World.Boot
import KernelMemory.Proofs.World.Refusals

/-!
# Overwritten maps

A client that stores outside its blocks can leave any content in the maps of
the regions, and the heap believes them.  What the heap keeps outside the
memory it manages is enough to bound the damage.  The main statement
`Reachable.faults_only_on_overdrawn_free` says which promises survive every run
with arbitrary stores: the records stay inside the regions, every call ends, and
the only call that can fault is the free of a block that the maps show larger
than all that its region is known to hold.  That fault changes nothing but the
maps.
-/

namespace KernelMemory

open Arena Finset Program RegionTable

/-! ## Frees that fault -/

theorem Result.ok_ne_fault {α : Type} (a : α) (fault : Fault) :
    (.ok a : Result α) ≠ Result.fault fault :=
  nofun

theorem Result.refuse_ne_fault {α : Type} (error : AllocError) (fault : Fault) :
    (Result.refuse error : Result α) ≠ Result.fault fault :=
  nofun

/-- The maps show one end of a block. -/
theorem Region.Extent.unique
    {region : Region} {m : Memory} {first last last' : ℕ} (h : region.Extent m first last)
    (h' : region.Extent m first last') : last = last' := by
  have hends {a b : ℕ} (ha : region.Extent m first a) (hb : region.Extent m first b) :
      ¬ a < b := by
    intro hab
    have hinside := hb.inside
    obtain ⟨hused, hhead⟩ := hb.tail a ha.nonempty hab
    rcases ha.ends (by omega) with hfree | hnext
    · rw [hused] at hfree
      cases hfree
    · rw [hhead] at hnext
      cases hnext
  have := hends h h'
  have := hends h' h
  omega

namespace Arena

variable {arena arena' : Arena} {outside : Finset ℕ} {pa : PhysAddr} {result : Result Unit}

/-- The maps show a block at an address that is larger than all that its region
is known to hold. -/
def Overdrawn (arena : Arena) (pa : PhysAddr) : Prop :=
  ∃ slot region first last, Has arena.heap.regions slot region ∧
    pa.val.toNat = region.unitStart first ∧ region.Extent arena.memory first last ∧
    region.used < last - first

/-- A free faults exactly for overdrawn blocks, and then changes nothing but
memory. -/
theorem Frees.fault_cases
    (h : arena.Frees pa result arena') (hframed : arena.Framed outside) :
    (arena.Overdrawn pa ∧ result = .fault .subOverflow ∧ arena'.heap = arena.heap ∧
      arena'.frames = arena.frames) ∨
    (¬ arena.Overdrawn pa ∧ ∀ fault, result ≠ .fault fault) := by
  cases h with
  | @freed _ slot first last region has address removal held frames heap =>
      refine Or.inr ⟨?_, Result.ok_ne_fault _⟩
      rintro ⟨slot', region', first', last', has', address', extent', overdrawn⟩
      have extent := removal.extent
      obtain ⟨rfl, rfl, rfl⟩ := hframed.unit_eq has has'
        (Nat.lt_of_lt_of_le extent.nonempty extent.inside)
        (Nat.lt_of_lt_of_le extent'.nonempty extent'.inside) address address'
      rw [extent'.unique extent] at overdrawn
      omega
  | overdrawn has address removal held =>
      exact Or.inl ⟨⟨_, _, _, _, has, address, removal.extent, held⟩, rfl, rfl, rfl⟩
  | unknown none =>
      refine Or.inr ⟨?_, Result.refuse_ne_fault _⟩
      rintro ⟨slot, region, first, last, has, address, extent, -⟩
      have hhead := extent.head
      have hinside := extent.inside
      have hnonempty := extent.nonempty
      rw [none slot region first has address extent.body (by omega)] at hhead
      cases hhead

theorem Allocates.exists_contains
    {units align : ℕ} (h : arena.Allocates units align (.ok pa) arena')
    (hframed : arena.Framed outside) (hreq : Region.Request units align) :
    ∃ slot region, Has arena'.heap.regions slot region ∧ region.Contains pa := by
  have hplaced {arena₁ : Arena} {slot first : ℕ} {region : Region}
      (places : arena₁.Places arena' units align slot region first)
      (hframed₁ : arena₁.Framed outside) :
      ∃ slot r, Has arena'.heap.regions slot r ∧ r.Contains (region.unitAddress first) := by
    have hinside := places.placement.least.1.inside
    have hpos := hreq.units_pos
    have hfirst : first < region.units := by omega
    exact ⟨slot, _, places.has_withBlock,
      Region.contains_of_unitStart hfirst (places.toNat_unitAddress hframed₁)⟩
  cases h with
  | placed before places => exact hplaced places hframed
  | grown full size leases places =>
      exact hplaced places (leases.framed hframed (hreq.framesFor_pos size))

end Arena

namespace World

variable {w : World}

/-! ## What survives -/

/-- The promises of a heap that survive arbitrary stores. -/
structure Robust (w : World) : Prop where
  room : ∀ slot region, Has w.regions slot region →
    region.reserved + region.used ≤ region.units
  bytes : ∃ bytes, allocatedBytes.run w.machine = some (.ok bytes, w.machine) ∧
    bytes.toNat = 16 * total Region.used w.regions
  usage : ∃ usage machine, stats.run w.machine = some (.ok usage, machine) ∧
    machine.state = w.arena ∧ usage.used = 16 * total Region.used w.regions ∧
    usage.used + usage.free = usage.capacity
  ends : ∀ call : Call, w.Permits call → ∃ result machine,
    call.program.run w.machine = some (result, machine) ∧ machine.locks = w.machine.locks ∧
    (call.freed? w.heap.map = none → ∀ fault, result ≠ .fault fault)
  allocates : ∀ size align pa machine,
    (allocAligned size align).run w.machine = some (.ok pa, machine) →
    ∃ slot region, Has machine.state.heap.regions slot region ∧ region.Contains pa
  releases : ∃ n machine, releaseEmptyRegions.run w.machine = some (.ok n, machine)
  frees : ∀ pa, ∃ result machine, (free pa).run w.machine = some (result, machine) ∧
    ((∃ fault, result = .fault fault) ↔ w.arena.Overdrawn pa) ∧
    ∀ fault, result = .fault fault → fault = .subOverflow ∧ machine.state.heap = w.heap ∧
      machine.state.frames = w.frames ∧ ∀ name, machine.locks.IsFree name

theorem Orderly.toNat_allocatedBytes (hw : w.Orderly) :
    w.heap.allocatedBytes.value.toNat = 16 * total Region.used w.regions := by
  have hcounted := hw.counted
  have hused := hw.framed.total_used_le
  have hframes := hw.framed.total_frames_le
  have hunits := hw.framed.sound.units_lt
  have hsize : UInt64.size = 18446744073709551616 := rfl
  rw [hw.framed.sound.units] at hunits
  rw [Counted] at hcounted
  rw [hcounted, UInt64.toNat_ofNat_of_lt' (by omega)]

theorem Robust.of_orderly (hw : w.Orderly) : w.Robust where
  room slot region hhas := (hw.framed.valid slot region hhas).room
  bytes := ⟨_, rfl, hw.toNat_allocatedBytes⟩
  usage := by
    obtain ⟨machine, hrun, -, hstate⟩ := (stats_yields hw.framed (hw.locks .heap)).exists_run
    have hle := Nat.mul_le_mul_left 16 hw.framed.total_used_le
    rw [← Nat.mul_assoc] at hle
    exact ⟨_, machine, hrun, hstate, rfl, Nat.add_sub_cancel' hle⟩
  ends := by
    intro call hpermitted
    by_cases hcall : call.freed? w.heap.map = none
    · obtain ⟨result, arena', hyields, hconcludes⟩ := hw.concludes hcall
      obtain ⟨machine, hrun, hlocks, -⟩ := hyields.exists_run
      exact ⟨result, machine, hrun, hlocks, fun _ => hconcludes.ne_fault⟩
    · obtain ⟨result, arena', hyields, -⟩ := exists_change call hpermitted hw.framed hw.locks
      obtain ⟨machine, hrun, hlocks, -⟩ := hyields.exists_run
      exact ⟨result, machine, hrun, hlocks, fun hnone => absurd hnone hcall⟩
  allocates := by
    intro size align pa machine hrun
    rcases allocAligned_yields hw.framed hw.locks size align with
      ⟨pa', arena', hreq, hallocates, hyields⟩ | ⟨error, hyields⟩
    · obtain ⟨hpa, -, rfl⟩ := hyields.eq_of_run hrun
      cases hpa
      exact hallocates.exists_contains hw.framed hreq
    · obtain ⟨hrefused, -⟩ := hyields.eq_of_run hrun
      cases hrefused
  releases := by
    obtain ⟨n, arena', hyields, -⟩ :=
      releaseEmptyRegions_cases hw.framed (hw.locks .heap) (hw.locks .frames)
    obtain ⟨machine, hrun, -⟩ := hyields.exists_run
    exact ⟨n, machine, hrun⟩
  frees := by
    intro pa
    obtain ⟨result, arena', hfrees, hyields⟩ := free_cases hw.framed (hw.locks .heap) pa
    obtain ⟨machine, hrun, hlocks, rfl⟩ := hyields.exists_run
    refine ⟨result, machine, hrun, ?_⟩
    rcases hfrees.fault_cases hw.framed with ⟨hover, rfl, hheap, hframes⟩ | ⟨hnot, hresult⟩
    · refine ⟨iff_of_true ⟨_, rfl⟩ hover, fun fault hfault => ?_⟩
      cases hfault
      exact ⟨rfl, hheap, hframes, fun name => hlocks ▸ hw.locks name⟩
    · refine ⟨iff_of_false ?_ hnot, fun fault hfault => absurd hfault (hresult fault)⟩
      rintro ⟨fault, hfault⟩
      exact hresult fault hfault

/-- Whatever clients store, the records of the heap stay inside its regions,
every call ends, and only the free of an overdrawn block faults. -/
theorem Reachable.faults_only_on_overdrawn_free (h : Reachable Rules.wild w) : w.Robust :=
  .of_orderly h.orderly

/-- A store to the map of used units makes a block of seven units look like one
of eight.  Freeing it faults, and leaves the heap as it was. -/
theorem exists_overdrawn_free :
    ∃ w : World, Reachable Rules.wild w ∧ w.Robust ∧ ∃ machine,
      (free ⟨0x100400⟩).run w.machine = some (.fault .subOverflow, machine) ∧
      machine.state.heap = w.heap := by
  obtain ⟨w₀, w, hfresh, -, hstep, hledger, slot, hhas⟩ := exists_first_block Rules.tidy
  have hw : Reachable Rules.tidy w := .step (.fresh hfresh) hstep
  have hmapped := hw.tracked.recorded.mapped slot _ hhas
  let stored := w.stored ⟨0x100008⟩ 0xFF
  have hstored : Reachable Rules.wild stored :=
    .step (hw.mono (fun _ _ _ => trivial) id) (.store trivial)
  have hrobust := hstored.faults_only_on_overdrawn_free
  let region : Region := ⟨⟨0x100000⟩, 16, 7⟩
  have hunits : region.units = 4096 := region.units_eq
  have hused (i : ℕ) (hlow : 64 ≤ i) (hhigh : i < 72) :
      region.usedAt stored.memory i = true := by
    have hbyte : i / 8 = 8 := by omega
    have hget : stored.memory.get (Memory.offset ⟨0x100000⟩ 8) = 0xFF :=
      (Memory.get_set _ _ _ _).trans (if_pos rfl)
    rw [Region.usedAt, Memory.bit, hbyte, hget]
    exact Bytes.testBit_full (Nat.mod_lt i (by decide))
  have hhead (i : ℕ) (hlow : 64 ≤ i) (hhigh : i < 72) :
      region.headAt stored.memory i = true ↔ i = 64 := by
    have hbyte : i / 8 = 8 := by omega
    have hkept : region.headAt stored.memory i = region.headAt w.memory i := by
      refine Memory.bit_congr ?_
      rw [hbyte]
      exact (Memory.get_set _ _ _ _).trans (if_neg (by decide))
    rw [hkept, hmapped.head i (show i < region.units by omega), hledger]
    simp only [mem_singleton, exists_eq_left, Block.start, Region.unitStart, Region.start]
    change 0x100400 = 0x100000 + 16 * i ↔ i = 64
    omega
  have hfree : region.usedAt stored.memory 72 = false := by
    have hkept : region.usedAt stored.memory 72 = region.usedAt w.memory 72 :=
      Memory.bit_congr ((Memory.get_set _ _ _ _).trans (if_neg (by decide)))
    rw [hkept, ← Bool.not_eq_true, hmapped.used 72 (show 72 < region.units by omega), hledger]
    simp only [mem_singleton, exists_eq_left]
    decide
  have hextent : region.Extent stored.memory 64 72 := {
    body := by decide
    nonempty := by omega
    inside := by omega
    head := (hhead 64 (by omega) (by omega)).2 rfl
    tail := fun i hlow hhigh => by
      refine ⟨hused i (by omega) hhigh, ?_⟩
      rw [← Bool.not_eq_true, hhead i (by omega) hhigh]
      omega
    ends := fun _ => Or.inl hfree }
  have hover : stored.arena.Overdrawn ⟨0x100400⟩ :=
    ⟨slot, region, 64, 72, hhas, rfl, hextent, by decide⟩
  obtain ⟨result, machine, hrun, hfault, hkept⟩ := hrobust.frees ⟨0x100400⟩
  obtain ⟨fault, rfl⟩ := hfault.2 hover
  obtain ⟨rfl, hheap, -⟩ := hkept fault rfl
  exact ⟨stored, hstored, hrobust, machine, hrun, hheap⟩

end World

end KernelMemory
