import KernelMemory.Proofs.Heap.Usage
import KernelMemory.Proofs.World.Clients

/-!
# What a call changes

One list of the changes that any call of any client can make, and the main
statement `exists_change`: every permitted call delivers, and makes one of
them.  It needs only that the regions lie on frames of their own, so it holds
with any content of memory.
-/

namespace KernelMemory

open Arena Finset Program

/-! ## Requests by pointer -/

namespace Arena

/-- A request by address as one by pointer, which says no more of a refusal
than that there is no block. -/
def asPointer (request : Program LockName Arena PhysAddr) :
    Program LockName Arena (Option VirtAddr) := do
  match ← outcome request with
  | .ok pa =>
      let map ← inspect (·.heap.map)
      return (map.toVirtual pa).nonNull?
  | .error _ => return none

theorem allocPointer_eq (size : UInt64) : allocPointer size = asPointer (alloc size) := rfl

theorem allocLayout_eq (layout : Layout) :
    allocLayout layout = asPointer (allocAligned (max layout.size 1) layout.align) := rfl

theorem yields_map (locks : Locks LockName) (arena : Arena) :
    (inspect (fun arena : Arena => arena.heap.map) : Program LockName Arena DirectMap).Yields
      locks arena (.ok arena.heap.map) arena :=
  yields_inspect _

/-- Freeing behind a pointer is freeing the address that it leads to. -/
theorem freePointer_yields
    {pointer : VirtAddr} {locks : Locks LockName} {arena arena' : Arena} {result : Result Unit}
    (hnull : pointer.isNull = false)
    (hrun : (free (arena.heap.map.toPhysical pointer)).Yields locks arena result arena') :
    (freePointer pointer).Yields locks arena result arena' := by
  rw [freePointer, hnull]
  exact (yields_map locks arena).bind hrun

theorem freePointer_null_yields
    {pointer : VirtAddr} (hnull : pointer.isNull = true) (locks : Locks LockName)
    (arena : Arena) : (freePointer pointer).Yields locks arena (.ok ()) arena := by
  rw [freePointer, if_pos hnull]
  exact yields_pure ()

end Arena

namespace World

variable {w : World}

/-- The changes of a call to the arena, the ledger and the frames that direct
callers hold. -/
inductive Change (w : World) : Arena → Finset Block → Finset ℕ → Prop
  | kept : Change w w.arena w.ledger w.held
  | allocated {units align : ℕ} {pa : PhysAddr} {arena' : Arena}
      (request : Region.Request units align)
      (allocates : Allocates w.arena units align (.ok pa) arena') :
      Change w arena' (insert ⟨pa, units⟩ w.ledger) w.held
  | freed {pa : PhysAddr} {arena' : Arena} (frees : Frees w.arena pa (.ok ()) arena') :
      Change w arena' (w.ledger.filter (·.address ≠ pa)) w.held
  | overdrawn {pa : PhysAddr} {fault : Fault} {arena' : Arena}
      (frees : Frees w.arena pa (.fault fault) arena') :
      Change w arena' w.ledger w.held
  | released {slots : List ℕ} {n : ℕ} {arena' : Arena}
      (framed : arena'.Framed (w.held ∪ w.abandoned))
      (released : Released w.arena arena' slots n) :
      Change w arena' w.ledger w.held
  | leased {index count : ℕ} (inside : index + count ≤ w.frames.bitmap.units)
      (free : Disjoint w.frames.leasedFrames (Ico index (index + count))) :
      Change w { w.arena with frames := w.frames.leasing index count inside } w.ledger
        (w.held ∪ Ico index (index + count))
  | returned {index count : ℕ} (inside : index + count ≤ w.frames.bitmap.units)
      (leased : Ico index (index + count) ⊆ w.frames.leasedFrames)
      (owned : Ico index (index + count) ⊆ w.held) :
      Change w { w.arena with frames := w.frames.returning index count inside } w.ledger
        (w.held \ Ico index (index + count))

variable (hframed : w.arena.Framed (w.held ∪ w.abandoned))
variable (hlocks : ∀ name, w.machine.locks.IsFree name)

/-! ## Allocations -/

include hframed hlocks in
theorem allocAligned_yields (size align : UInt64) :
    (∃ pa arena', Region.Request (ceilDiv size.toNat 16) (max (align.toNat / 16) 1) ∧
      Allocates w.arena (ceilDiv size.toNat 16) (max (align.toNat / 16) 1) (.ok pa) arena' ∧
      (allocAligned size align).Yields w.machine.locks w.arena (.ok pa) arena') ∨
    (∃ error, (allocAligned size align).Yields w.machine.locks w.arena
      (.refuse error) w.arena) := by
  rcases allocAligned_cases hframed (hlocks .heap) (hlocks .frames) size align with
    ⟨-, hrun⟩ | ⟨-, -, hrun⟩ | ⟨hsize, hpow, hle, result, arena', hallocates, hrun⟩
  · exact Or.inr ⟨_, hrun⟩
  · exact Or.inr ⟨_, hrun⟩
  · have hreq := request_of_layout hsize hpow hle
    cases hallocates with
    | placed before places => exact Or.inl ⟨_, _, hreq, .placed before places, hrun⟩
    | grown full hcount leases places =>
        exact Or.inl ⟨_, _, hreq, .grown full hcount leases places, hrun⟩
    | refused full stuck => exact Or.inr ⟨_, hrun⟩

include hframed hlocks in
/-- An allocation by address adds the block that it answers. -/
theorem change_of_allocAligned (size align : UInt64) :
    ∃ result arena', (allocAligned size align).Yields w.machine.locks w.arena result arena' ∧
      w.Change arena' (w.ledgerAfter (.allocAligned size align) result) w.held := by
  rcases allocAligned_yields hframed hlocks size align with
    ⟨pa, arena', hreq, hallocates, hrun⟩ | ⟨error, hrun⟩
  · exact ⟨_, _, hrun, .allocated hreq hallocates⟩
  · exact ⟨_, _, hrun, .kept⟩

include hframed hlocks in
/-- A block that an allocation gives has a pointer, which leads back to it. -/
theorem asPointer_yields (size align : UInt64) :
    (∃ pa arena', Region.Request (ceilDiv size.toNat 16) (max (align.toNat / 16) 1) ∧
      Allocates w.arena (ceilDiv size.toNat 16) (max (align.toNat / 16) 1) (.ok pa) arena' ∧
      (asPointer (allocAligned size align)).Yields w.machine.locks w.arena
        (.ok (some (w.heap.map.toVirtual pa))) arena') ∨
    (asPointer (allocAligned size align)).Yields w.machine.locks w.arena (.ok none) w.arena := by
  rcases allocAligned_yields hframed hlocks size align with
    ⟨pa, arena', hreq, hallocates, hrun⟩ | ⟨error, hrun⟩
  · have hnull := hallocates.isNull_eq_false hreq hframed
    refine Or.inl ⟨pa, arena', hreq, hallocates, ?_⟩
    have hpointer : (pure (arena'.heap.map.toVirtual pa).nonNull? :
        Program LockName Arena (Option VirtAddr)).Yields w.machine.locks arena'
          (.ok (some (w.heap.map.toVirtual pa))) arena' := by
      rw [hallocates.map_eq, Address.nonNull?_eq_some hnull]
      exact yields_pure _
    exact hrun.outcome_ok.bind ((yields_map _ arena').bind hpointer)
  · exact Or.inr (hrun.outcome_refused.bind (yields_pure _))

include hframed hlocks in
/-- An allocation by pointer adds the block behind the pointer that it
answers. -/
theorem change_of_asPointer (size align : UInt64) :
    ∃ result arena',
      (asPointer (allocAligned size align)).Yields w.machine.locks w.arena result arena' ∧
      ((∃ pointer, result = .ok (some pointer) ∧ w.Change arena'
        (insert ⟨w.heap.map.toPhysical pointer, ceilDiv size.toNat 16⟩ w.ledger) w.held) ∨
      (result = .ok none ∧ w.Change arena' w.ledger w.held)) := by
  rcases asPointer_yields hframed hlocks size align with
    ⟨pa, arena', hreq, hallocates, hrun⟩ | hrun
  · refine ⟨_, _, hrun, Or.inl ⟨_, rfl, ?_⟩⟩
    rw [DirectMap.toPhysical_toVirtual]
    exact .allocated hreq hallocates
  · exact ⟨_, _, hrun, Or.inr ⟨rfl, .kept⟩⟩

theorem ledgerAfter_of_obtained
    {call : Call} {answer : call.Answer} {b : Block}
    (h : call.obtained? w.heap.map answer = some b) :
    w.ledgerAfter call (.ok answer) = insert b w.ledger := by
  simp only [ledgerAfter, h]

/-- A call that fails changes nothing that clients hold. -/
theorem heldAfter_error (call : Call) (failure : Failure) :
    w.heldAfter call (.error failure) = w.held := by
  cases call <;> rfl

theorem ledgerAfter_eq
    {call : Call} (hobtained : ∀ answer, call.obtained? w.heap.map answer = none)
    (hfreed : call.freed? w.heap.map = none) (result : Result call.Answer) :
    w.ledgerAfter call result = w.ledger := by
  cases result with
  | error failure => rfl
  | ok answer => simp only [ledgerAfter, hobtained, hfreed]

/-- A call that is no free takes no block off the ledger. -/
theorem ledger_subset_called
    {call : Call} (hfreed : call.freed? w.heap.map = none) (result : Result call.Answer)
    (machine : Machine LockName Arena) : w.ledger ⊆ (w.called call result machine).ledger := by
  cases result with
  | error failure => exact subset_refl _
  | ok answer =>
      simp only [called, ledgerAfter, hfreed]
      split
      · exact subset_insert _ _
      · contradiction
      · exact subset_refl _

/-! ## Frees -/

/-- A free that succeeds takes the block of its address off the ledger. -/
theorem ledgerAfter_of_freed
    {call : Call} {answer : call.Answer} {pa : PhysAddr}
    (hobtained : call.obtained? w.heap.map answer = none)
    (hfreed : call.freed? w.heap.map = some pa) :
    w.ledgerAfter call (.ok answer) = w.ledger.filter (·.address ≠ pa) := by
  simp only [ledgerAfter, hobtained, hfreed]

include hframed hlocks in
theorem change_of_free (pa : PhysAddr) :
    ∃ result arena', (free pa).Yields w.machine.locks w.arena result arena' ∧
      w.Change arena' (w.ledgerAfter (.free pa) result) w.held := by
  obtain ⟨result, arena', hfrees, hrun⟩ := free_cases hframed (hlocks .heap) pa
  refine ⟨result, arena', hrun, ?_⟩
  cases hfrees with
  | freed has address removal held frames heap =>
      exact .freed (.freed has address removal held frames heap)
  | overdrawn has address removal held => exact .overdrawn (.overdrawn has address removal held)
  | unknown none => exact .kept

theorem ledgerAfter_freePointer
    {pointer : VirtAddr} (hnull : pointer.isNull = false) (result : Result Unit) :
    w.ledgerAfter (.freePointer pointer) result =
      w.ledgerAfter (.free (w.heap.map.toPhysical pointer)) result := by
  have hfreed : (Call.freePointer pointer).freed? w.heap.map =
      some (w.heap.map.toPhysical pointer) := by
    rw [Call.freed?, hnull]
    rfl
  cases result with
  | error failure => rfl
  | ok answer => exact ledgerAfter_of_freed rfl hfreed

include hframed hlocks in
/-- Freeing behind a pointer, which leads to a block unless it is null. -/
theorem change_of_freePointer (pointer : VirtAddr) :
    ∃ result arena', (freePointer pointer).Yields w.machine.locks w.arena result arena' ∧
      w.Change arena' (w.ledgerAfter (.freePointer pointer) result) w.held := by
  by_cases hnull : pointer.isNull = true
  · refine ⟨.ok (), _, freePointer_null_yields hnull _ _, ?_⟩
    have hfreed : (Call.freePointer pointer).freed? w.heap.map = none := if_pos hnull
    have hledger : w.ledgerAfter (.freePointer pointer) (.ok ()) = w.ledger :=
      ledgerAfter_eq (fun _ => rfl) hfreed _
    rw [hledger]
    exact .kept
  · have hnull' : pointer.isNull = false := Bool.eq_false_of_not_eq_true hnull
    obtain ⟨result, arena', hrun, hchange⟩ :=
      change_of_free hframed hlocks (w.heap.map.toPhysical pointer)
    rw [← ledgerAfter_freePointer hnull'] at hchange
    exact ⟨result, arena', freePointer_yields hnull' hrun, hchange⟩

include hframed hlocks in
theorem change_of_dealloc (pointer : VirtAddr) :
    ∃ result arena', (dealloc pointer).Yields w.machine.locks w.arena result arena' ∧
      w.Change arena' (w.ledgerAfter (.dealloc pointer) result) w.held := by
  obtain ⟨result, arena', hrun, hchange⟩ := change_of_freePointer hframed hlocks pointer
  match result, hrun, hchange with
  | .ok (), hrun, hchange => exact ⟨.ok (), _, hrun.outcome_ok.bind (yields_pure ()), hchange⟩
  | .error (.refused error), hrun, hchange =>
      exact ⟨_, _, hrun.outcome_refused.bind (yields_ofResult (.fault .foreignDealloc)), hchange⟩
  | .error (.fault fault), hrun, hchange => exact ⟨_, _, hrun.outcome_fault.bind_error, hchange⟩

/-! ## Frames -/

theorem frameRun_eq
    (hpool : w.frames.Sound) {pa : PhysAddr} {index : ℕ} (count : ℕ)
    (hindex : index < w.frames.totalFrames) (hpa : pa.val.toNat = w.frames.frameStart index) :
    w.frameRun pa count = Ico index (index + count) := by
  rw [frameRun, (hpool.frameIndex?_eq_some_iff).2 ⟨hindex, hpa⟩]

include hframed hlocks in
theorem change_of_leaseFrames (count : ℕ) :
    ∃ result arena',
      (Call.program (.leaseFrames count)).Yields w.machine.locks w.arena result arena' ∧
      w.Change arena' (w.ledgerAfter (.leaseFrames count) result)
        (w.heldAfter (.leaseFrames count) result) := by
  by_cases hcount : count = 0
  · subst hcount
    exact ⟨_, _, within_framesPart (FramePool.lease_zero (hlocks .frames)), .kept⟩
  rcases FramePool.lease_cases hframed.sound (hlocks .frames) (Nat.pos_of_ne_zero hcount) with
    ⟨index, hleast, hinside, pa, hpa, hlease⟩ | ⟨-, hlease⟩
  · have hindex : index < w.frames.totalFrames := by
      rw [← hframed.sound.units]
      omega
    refine ⟨.ok pa, _, within_framesPart hlease, ?_⟩
    simp only [heldAfter, frameRun_eq hframed.sound count hindex hpa]
    exact .leased hinside (FramePool.disjoint_of_fits hleast.1)
  · exact ⟨_, _, within_framesPart hlease, .kept⟩

include hframed hlocks in
theorem change_of_giveBackFrames
    (pa : PhysAddr) (count : ℕ) (hpermitted : w.Permits (.giveBackFrames pa count)) :
    ∃ result arena',
      (Call.program (.giveBackFrames pa count)).Yields w.machine.locks w.arena result arena' ∧
      w.Change arena' (w.ledgerAfter (.giveBackFrames pa count) result)
        (w.heldAfter (.giveBackFrames pa count) result) := by
  by_cases hreturnable : ∃ index, w.frames.Returnable pa count index
  · obtain ⟨index, hreturnable⟩ := hreturnable
    obtain ⟨hindex, hpa⟩ := hframed.sound.frameIndex?_eq_some_iff.1 hreturnable.frame
    refine ⟨.ok (), _,
      within_framesPart (FramePool.giveBack_of_returnable (hlocks .frames) hreturnable), ?_⟩
    simp only [heldAfter, frameRun_eq hframed.sound count hindex hpa]
    exact .returned hreturnable.inside hreturnable.leased (hpermitted index hreturnable)
  · exact ⟨_, _, within_framesPart (FramePool.giveBack_of_not (hlocks .frames)
      fun index h => hreturnable ⟨index, h⟩), .kept⟩

include hframed hlocks in
theorem change_of_reserveFrames (pa : PhysAddr) (count : ℕ) :
    ∃ result arena',
      (Call.program (.reserveFrames pa count)).Yields w.machine.locks w.arena result arena' ∧
      w.Change arena' (w.ledgerAfter (.reserveFrames pa count) result)
        (w.heldAfter (.reserveFrames pa count) result) := by
  by_cases hreservable : ∃ index, w.frames.Reservable pa count index
  · obtain ⟨index, hreservable⟩ := hreservable
    obtain ⟨hindex, hpa⟩ := hframed.sound.frameIndex?_eq_some_iff.1 hreservable.frame
    refine ⟨.ok (), _, within_framesPart
      (FramePool.reserve_of_reservable hframed.sound (hlocks .frames) hreservable), ?_⟩
    simp only [heldAfter, frameRun_eq hframed.sound count hindex hpa]
    exact .leased hreservable.inside hreservable.free
  · obtain ⟨why, hreserve⟩ := FramePool.reserve_of_not hframed.sound (hlocks .frames)
      fun index h => hreservable ⟨index, h⟩
    exact ⟨_, _, within_framesPart hreserve, .kept⟩

/-! ## Every call -/

/-- Every permitted call delivers, and makes one of the changes. -/
theorem exists_change
    (call : Call) (hpermitted : w.Permits call)
    (hframed : w.arena.Framed (w.held ∪ w.abandoned))
    (hlocks : ∀ name, w.machine.locks.IsFree name) :
    ∃ result arena', call.program.Yields w.machine.locks w.arena result arena' ∧
      w.Change arena' (w.ledgerAfter call result) (w.heldAfter call result) := by
  cases call with
  | allocAligned size align => exact change_of_allocAligned hframed hlocks size align
  | alloc size =>
      obtain ⟨failure | pa, arena', hrun, hchange⟩ :=
        change_of_allocAligned hframed hlocks size (UInt64.ofNat Parameters.unitBytes)
      · exact ⟨.error failure, arena', hrun, hchange⟩
      · exact ⟨.ok pa, arena', hrun, hchange⟩
  | allocPointer size =>
      obtain ⟨_, arena', hrun, ⟨pointer, rfl, hchange⟩ | ⟨rfl, hchange⟩⟩ :=
        change_of_asPointer hframed hlocks size (UInt64.ofNat Parameters.unitBytes)
      · exact ⟨_, _, hrun, hchange⟩
      · exact ⟨_, _, hrun, hchange⟩
  | allocLayout layout =>
      obtain ⟨_, arena', hrun, ⟨pointer, rfl, hchange⟩ | ⟨rfl, hchange⟩⟩ :=
        change_of_asPointer hframed hlocks (max layout.size 1) layout.align
      · exact ⟨_, _, hrun, hchange⟩
      · exact ⟨_, _, hrun, hchange⟩
  | free pa => exact change_of_free hframed hlocks pa
  | freePointer pointer => exact change_of_freePointer hframed hlocks pointer
  | dealloc pointer => exact change_of_dealloc hframed hlocks pointer
  | releaseEmptyRegions =>
      obtain ⟨n, arena', hrun, hframed', hreleased⟩ :=
        releaseEmptyRegions_cases hframed (hlocks .heap) (hlocks .frames)
      exact ⟨_, _, hrun, .released hframed' hreleased⟩
  | stats => exact ⟨_, _, stats_yields hframed (hlocks .heap), .kept⟩
  | leaseFrames count => exact change_of_leaseFrames hframed hlocks count
  | giveBackFrames pa count => exact change_of_giveBackFrames hframed hlocks pa count hpermitted
  | reserveFrames pa count => exact change_of_reserveFrames hframed hlocks pa count
  | frameStats =>
      exact ⟨_, _, within_framesPart (FramePool.stats_yields hframed.sound (hlocks .frames)),
        .kept⟩

end World

end KernelMemory
