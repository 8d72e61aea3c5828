import KernelMemory.Proofs.FramePool.Vector
import KernelMemory.Proofs.Program.Bracketing
import KernelMemory.Proofs.World.Clients

/-!
# Locking of the operations

Every operation of a frame pool and of a heap takes and frees its locks in
order, whatever its arguments and whatever the state: the heap lock before the
frame lock, and neither twice.  This holds of operations that are refused and
of those that fault as well, since locks are freed on every way out.
-/

namespace KernelMemory

open Program

/-- Locks are taken in the order of their ranks. -/
def LockName.rank : LockName → ℕ
  | .heap => 0
  | .frames => 1

/-! ## Frame pools -/

namespace FramePool

variable {held : List LockName} (hheld : .frames ∉ held)
include hheld

theorem balanced_locked {α : Type} (body : Section FramePool α) :
    (locked body).Balanced LockName.rank held := by
  refine Balanced.withLock (fun other hother => ?_) (balanced_critical body)
  cases other with
  | heap => exact Nat.zero_lt_one
  | frames => exact absurd hother hheld

theorem balanced_lease (count : ℕ) : (lease count).Balanced LockName.rank held := by
  refine (balanced_locked hheld _).outcome.bind fun claimed => ?_
  match claimed with
  | .ok index =>
      exact (balanced_inspect _).bind fun address => (balanced_ofResult address).bind fun pa =>
        (balanced_report _).bind fun _ => balanced_pure pa
  | .error .outOfMemory => exact (balanced_report _).bind fun _ => balanced_refuse _
  | .error (.invalidArgument _) => exact balanced_refuse _
  | .error (.outOfRange _ _) => exact balanced_refuse _
  | .error (.invalidFree _) => exact balanced_refuse _
  | .error .notInitialized => exact balanced_refuse _
  | .error .alreadyInitialized => exact balanced_refuse _

theorem balanced_giveBack (pa : PhysAddr) (count : ℕ) :
    (giveBack pa count).Balanced LockName.rank held := by
  refine (balanced_inspect _).bind fun index => ?_
  cases index with
  | none => exact (balanced_report _).bind fun _ => balanced_refuse _
  | some index =>
      refine (balanced_locked hheld _).bind fun reclaimed => ?_
      cases reclaimed with
      | true => exact balanced_report _
      | false => exact (balanced_report _).bind fun _ => balanced_refuse _

theorem balanced_reserve (pa : PhysAddr) (count : ℕ) :
    (reserve pa count).Balanced LockName.rank held := by
  refine (balanced_inspect _).bind fun index => ?_
  cases index with
  | none => exact balanced_refuse _
  | some index => exact (balanced_locked hheld _).bind fun _ => balanced_report _

theorem balanced_stats : stats.Balanced LockName.rank held := balanced_locked hheld _

theorem Request.balances (request : Request) : request.program.Balanced LockName.rank held := by
  cases request with
  | lease count => exact balanced_lease hheld count
  | leaseOne => exact balanced_lease hheld 1
  | giveBack pa count => exact balanced_giveBack hheld pa count
  | reserve pa count => exact balanced_reserve hheld pa count

end FramePool

/-! ## Heaps -/

namespace Arena

theorem balanced_framesPart
    {α : Type} {held : List LockName} {program : Program LockName FramePool α}
    (h : program.Balanced LockName.rank held) :
    (within framesPart program).Balanced LockName.rank held :=
  h.within fun _ => rfl

theorem balanced_heapLock
    {α : Type} {body : Program LockName Arena α} (h : body.Balanced LockName.rank [.heap]) :
    (withLock .heap body).Balanced LockName.rank [] :=
  Balanced.withLock (fun _ hother => absurd hother List.not_mem_nil) h

theorem balanced_grow (units align : ℕ) : (grow units align).Balanced LockName.rank [.heap] := by
  have hframes : LockName.frames ∉ [LockName.heap] := by decide
  refine (balanced_inspect _).bind fun slot => ?_
  cases slot with
  | none => exact (balanced_report _).bind fun _ => balanced_refuse _
  | some slot =>
      refine (balanced_ofResult _).bind fun frames =>
        (balanced_framesPart (FramePool.balanced_lease hframes frames)).bind fun base =>
        (balanced_ofResult _).bind fun region => (balanced_inspect _).bind fun map =>
        (balanced_critical _).outcome.bind fun formatted => ?_
      cases formatted with
      | error error =>
          exact (balanced_framesPart (FramePool.balanced_giveBack hframes base frames)).outcome.bind
            fun _ => balanced_refuse _
      | ok _ =>
          exact (balanced_ofResult _).bind fun _ => (balanced_report _).bind fun _ =>
            (balanced_update _).bind fun _ => balanced_pure slot

theorem balanced_placeOrGrow (units align : ℕ) :
    (placeOrGrow units align).Balanced LockName.rank [.heap] := by
  refine (balanced_critical _).bind fun placed => ?_
  cases placed with
  | some pa => exact balanced_pure pa
  | none => exact (balanced_grow units align).bind fun slot => balanced_critical _

theorem balanced_allocAligned (size align : UInt64) :
    (allocAligned size align).Balanced LockName.rank [] := by
  rw [allocAligned]
  split_ifs
  · exact balanced_refuse _
  · exact balanced_refuse _
  · refine (balanced_heapLock ?_).bind fun placed => ?_
    · refine (balanced_placeOrGrow _ _).outcome.bind fun placed => ?_
      split_ifs
      · exact (balanced_critical _).bind fun _ => balanced_pure placed
      · exact balanced_pure placed
    · cases placed with
      | ok pa => exact (balanced_report _).bind fun _ => balanced_pure pa
      | error error => exact (balanced_report _).bind fun _ => balanced_refuse error

theorem balanced_free (pa : PhysAddr) : (free pa).Balanced LockName.rank [] := by
  refine (balanced_heapLock (balanced_critical _)).bind fun units => ?_
  cases units with
  | none => exact (balanced_report _).bind fun _ => balanced_refuse _
  | some units => exact (balanced_ofResult _).bind fun _ => balanced_report _

theorem balanced_releaseSlot (slot : ℕ) : (releaseSlot slot).Balanced LockName.rank [.heap] := by
  refine (balanced_inspect _).bind fun content => ?_
  cases content with
  | none => exact balanced_pure false
  | some region =>
      simp only
      split_ifs
      · refine (balanced_framesPart (FramePool.balanced_giveBack (by decide) _ _)).outcome.bind
          fun returned => ?_
        cases returned with
        | ok _ =>
            exact (balanced_report _).bind fun _ => (balanced_update _).bind fun _ =>
              balanced_pure true
        | error error => exact balanced_pure false
      · exact balanced_pure false

theorem balanced_releaseSlots (slots : List ℕ) :
    (releaseSlots slots).Balanced LockName.rank [.heap] := by
  induction slots with
  | nil => exact balanced_pure 0
  | cons slot rest ih =>
      exact (balanced_releaseSlot slot).bind fun here => ih.bind fun others => balanced_pure _

theorem balanced_allocPointer (size : UInt64) :
    (allocPointer size).Balanced LockName.rank [] := by
  refine (balanced_allocAligned _ _).outcome.bind fun allocated => ?_
  cases allocated with
  | ok pa => exact (balanced_inspect _).bind fun _ => balanced_pure _
  | error error => exact balanced_pure none

theorem balanced_allocLayout (layout : Layout) :
    (allocLayout layout).Balanced LockName.rank [] := by
  refine (balanced_allocAligned _ _).outcome.bind fun allocated => ?_
  cases allocated with
  | ok pa => exact (balanced_inspect _).bind fun _ => balanced_pure _
  | error error => exact balanced_pure none

theorem balanced_freePointer (pointer : VirtAddr) :
    (freePointer pointer).Balanced LockName.rank [] := by
  rw [freePointer]
  split_ifs
  · exact balanced_pure ()
  · exact (balanced_inspect _).bind fun map => balanced_free _

theorem balanced_dealloc (pointer : VirtAddr) :
    (dealloc pointer).Balanced LockName.rank [] := by
  refine (balanced_freePointer pointer).outcome.bind fun freed => ?_
  cases freed with
  | ok _ => exact balanced_pure ()
  | error error => exact balanced_ofResult _

end Arena

open Arena

/-- Every call of a client takes and frees its locks in order, and ends without
any. -/
theorem Call.balances (call : Call) : call.program.Balanced LockName.rank [] := by
  have hframes : LockName.frames ∉ ([] : List LockName) := List.not_mem_nil
  cases call with
  | allocAligned size align => exact balanced_allocAligned size align
  | alloc size => exact balanced_allocAligned size _
  | free pa => exact balanced_free pa
  | allocPointer size => exact balanced_allocPointer size
  | freePointer pointer => exact balanced_freePointer pointer
  | allocLayout layout => exact balanced_allocLayout layout
  | dealloc pointer => exact balanced_dealloc pointer
  | releaseEmptyRegions => exact balanced_heapLock (balanced_releaseSlots _)
  | stats => exact balanced_heapLock (balanced_critical _)
  | leaseFrames count => exact balanced_framesPart (FramePool.balanced_lease hframes count)
  | giveBackFrames pa count =>
      exact balanced_framesPart (FramePool.balanced_giveBack hframes pa count)
  | reserveFrames pa count =>
      exact balanced_framesPart (FramePool.balanced_reserve hframes pa count)
  | frameStats => exact balanced_framesPart (FramePool.balanced_stats hframes)

end KernelMemory
