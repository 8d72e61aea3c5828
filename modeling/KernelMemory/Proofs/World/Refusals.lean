import KernelMemory.Proofs.FramePool.Vector
import KernelMemory.Proofs.World.Invariant

/-!
# What calls refuse

The answers that a call may give besides delivering.  `Call.Refuses` lists the
refusals that the interface announces, call by call; a call that `Concludes`
delivers or refuses with one of these, and so never faults and never passes on
a refusal that a part of it met on the way.  The main statement
`Orderly.concludes` covers every call that frees nothing, whatever the maps
hold.
-/

namespace KernelMemory

open Arena Program

namespace Call

/-- The refusals that a call announces.  Calls by pointer that allocate say
only that they failed, and the others refuse nothing. -/
inductive Refuses (map : DirectMap) : Call → AllocError → Prop
  | noRoom {size align : UInt64} : Refuses map (.allocAligned size align) .outOfMemory
  | emptyBlock {align : UInt64} :
      Refuses map (.allocAligned 0 align) (.invalidArgument .emptyBlock)
  | alignment {size align : UInt64} (bad : ¬ (align.toNat.isPowerOfTwo ∧ align.toNat ≤ 4096)) :
      Refuses map (.allocAligned size align) (.invalidArgument .alignmentUnsupported)
  | alloc {size : UInt64} {error : AllocError}
      (aligned : Refuses map (.allocAligned size 16) error) : Refuses map (.alloc size) error
  | free {pa : PhysAddr} : Refuses map (.free pa) (.invalidFree pa)
  | freePointer {pointer : VirtAddr} (nonNull : pointer.isNull = false) :
      Refuses map (.freePointer pointer) (.invalidFree (map.toPhysical pointer))
  | emptyRun : Refuses map (.leaseFrames 0) (.invalidArgument .emptyRun)
  | noFrames {count : ℕ} : Refuses map (.leaseFrames count) .outOfMemory
  | notLeased {pa : PhysAddr} {count : ℕ} :
      Refuses map (.giveBackFrames pa count) (.invalidFree pa)
  | outside {pa : PhysAddr} {count : ℕ} :
      Refuses map (.reserveFrames pa count) (.invalidArgument .reservationOutside)
  | overlaps {pa : PhysAddr} {count : ℕ} :
      Refuses map (.reserveFrames pa count) (.invalidArgument .reservationOverlaps)

/-- The call delivers, or refuses in one of its own ways. -/
def Concludes (map : DirectMap) (call : Call) (result : Result call.Answer) : Prop :=
  ∀ failure, result = .error failure → ∃ error, failure = .refused error ∧ call.Refuses map error

variable {map : DirectMap} {call : Call}

theorem concludes_ok (a : call.Answer) : call.Concludes map (.ok a) :=
  nofun

theorem concludes_refuse {error : AllocError} (h : call.Refuses map error) :
    call.Concludes map (.refuse error) := by
  intro failure hfailure
  cases hfailure
  exact ⟨error, rfl, h⟩

theorem Concludes.ne_fault
    {result : Result call.Answer} (h : call.Concludes map result) (fault : Fault) :
    result ≠ .fault fault := by
  intro hfault
  obtain ⟨error, herror, -⟩ := h _ hfault
  cases herror

end Call

/-! ## Calls that free nothing -/

namespace World

variable {w : World}

theorem Orderly.concludes_allocAligned (hw : w.Orderly) (size align : UInt64) :
    (∃ pa arena', (allocAligned size align).Yields w.machine.locks w.arena (.ok pa) arena') ∨
    ∃ error, (Call.allocAligned size align).Refuses w.heap.map error ∧
      (allocAligned size align).Yields w.machine.locks w.arena (.refuse error) w.arena := by
  rcases allocAligned_cases hw.framed (hw.locks .heap) (hw.locks .frames) size align with
    ⟨rfl, hrun⟩ | ⟨-, hbad, hrun⟩ | ⟨-, -, -, result, arena', hallocates, hrun⟩
  · exact Or.inr ⟨_, .emptyBlock, hrun⟩
  · exact Or.inr ⟨_, .alignment hbad, hrun⟩
  · cases hallocates with
    | placed before places => exact Or.inl ⟨_, _, hrun⟩
    | grown full size leases places => exact Or.inl ⟨_, _, hrun⟩
    | refused full stuck => exact Or.inr ⟨_, .noRoom, hrun⟩

theorem Orderly.concludes_request (hw : w.Orderly) (request : FramePool.Request) :
    ∃ answer arena' entries', (within framesPart request.program).Yields w.machine.locks w.arena
        answer arena' ∧
      FramePool.Serves w.frames.base w.frames.entries request answer entries' := by
  obtain ⟨answer, pool', hrun, hserved⟩ :=
    FramePool.exists_served hw.framed.sound (hw.locks .frames) request
  exact ⟨answer, _, _, within_framesPart hrun, hserved.serves⟩

/-- A call that frees no block ends, and concludes. -/
theorem Orderly.concludes
    (hw : w.Orderly) {call : Call} (hcall : call.freed? w.heap.map = none) :
    ∃ result arena', call.program.Yields w.machine.locks w.arena result arena' ∧
      call.Concludes w.heap.map result := by
  have hpointer {pointer : VirtAddr} (h : Call.freed? w.heap.map (.freePointer pointer) = none) :
      (freePointer pointer).Yields w.machine.locks w.arena (.ok ()) w.arena := by
    have hnull : pointer.isNull = true := by
      by_contra hnot
      rw [Call.freed?, if_neg hnot] at h
      cases h
    rw [freePointer, if_pos hnull]
    exact yields_pure ()
  cases call with
  | allocAligned size align =>
      rcases hw.concludes_allocAligned size align with
        ⟨pa, arena', hrun⟩ | ⟨error, hrefuses, hrun⟩
      · exact ⟨_, _, hrun, Call.concludes_ok _⟩
      · exact ⟨_, _, hrun, Call.concludes_refuse hrefuses⟩
  | alloc size =>
      rcases hw.concludes_allocAligned size 16 with ⟨pa, arena', hrun⟩ | ⟨error, hrefuses, hrun⟩
      · exact ⟨_, _, hrun, Call.concludes_ok _⟩
      · exact ⟨_, _, hrun, Call.concludes_refuse (.alloc hrefuses)⟩
  | allocPointer size =>
      rcases hw.concludes_allocAligned size 16 with ⟨pa, arena', hrun⟩ | ⟨error, -, hrun⟩
      · exact ⟨_, _, hrun.outcome_ok.bind ((yields_map _ arena').bind (yields_pure _)),
          Call.concludes_ok _⟩
      · exact ⟨_, _, hrun.outcome_refused.bind (yields_pure _), Call.concludes_ok _⟩
  | allocLayout layout =>
      rcases hw.concludes_allocAligned (max layout.size 1) layout.align with
        ⟨pa, arena', hrun⟩ | ⟨error, -, hrun⟩
      · exact ⟨_, _, hrun.outcome_ok.bind ((yields_map _ arena').bind (yields_pure _)),
          Call.concludes_ok _⟩
      · exact ⟨_, _, hrun.outcome_refused.bind (yields_pure _), Call.concludes_ok _⟩
  | free pa => cases hcall
  | freePointer pointer => exact ⟨_, _, hpointer hcall, Call.concludes_ok _⟩
  | dealloc pointer =>
      exact ⟨_, _, (hpointer hcall).outcome_ok.bind (yields_pure ()), Call.concludes_ok _⟩
  | releaseEmptyRegions =>
      obtain ⟨n, arena', hrun, -⟩ :=
        releaseEmptyRegions_cases hw.framed (hw.locks .heap) (hw.locks .frames)
      exact ⟨_, _, hrun, Call.concludes_ok _⟩
  | stats => exact ⟨_, _, stats_yields hw.framed (hw.locks .heap), Call.concludes_ok _⟩
  | leaseFrames count =>
      obtain ⟨answer, arena', entries', hrun, hserves⟩ := hw.concludes_request (.lease count)
      refine ⟨answer, arena', hrun, ?_⟩
      cases hserves with
      | leased pos least address => exact Call.concludes_ok _
      | exhausted pos full => exact Call.concludes_refuse .noFrames
      | leasedNothing => exact Call.concludes_refuse .emptyRun
  | giveBackFrames pa count =>
      obtain ⟨answer, arena', entries', hrun, hserves⟩ := hw.concludes_request (.giveBack pa count)
      refine ⟨answer, arena', hrun, ?_⟩
      cases hserves with
      | returned run busy => exact Call.concludes_ok _
      | notReturned none => exact Call.concludes_refuse .notLeased
  | reserveFrames pa count =>
      obtain ⟨answer, arena', entries', hrun, hserves⟩ := hw.concludes_request (.reserve pa count)
      refine ⟨answer, arena', hrun, ?_⟩
      cases hserves with
      | reserved run free => exact Call.concludes_ok _
      | outside none => exact Call.concludes_refuse .outside
      | overlapping run busy => exact Call.concludes_refuse .overlaps
  | frameStats =>
      exact ⟨_, _, within_framesPart
        (FramePool.stats_yields hw.framed.sound (hw.locks .frames)), Call.concludes_ok _⟩

end World

end KernelMemory
