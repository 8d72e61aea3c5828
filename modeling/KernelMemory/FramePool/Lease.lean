import KernelMemory.FramePool.Basic
import KernelMemory.Sync.LockName

/-!
# Leasing frames

The operations of a frame pool as programs.  Each holds the frame lock
for a single section; addresses are computed and events reported outside it.
-/

namespace KernelMemory.FramePool

open Program

variable {σ : Type}

/-- Creates a pool and reports what it manages. -/
def setUp (base : PhysAddr) (totalMemory : UInt64) (storage : ByteArray) :
    Program LockName σ FramePool := do
  let pool ← ofResult (create base totalMemory storage)
  report (.framesManaged pool.totalFrames base (bitmapBytesFor totalMemory))
  return pool

/-- Runs a section under the frame lock. -/
def locked {α : Type} (body : Section FramePool α) : Program LockName FramePool α :=
  withLock .frames (critical body)

/-- Leases the lowest run of `count` free frames and gives its address. -/
def lease (count : Nat) : Program LockName FramePool PhysAddr := do
  match ← outcome (locked (claim count)) with
  | .ok index =>
      let pa ← ofResult (← inspect (·.addressOf index))
      report (.framesLeased count pa)
      return pa
  | .error .outOfMemory =>
      report (.noFreeRun count)
      refuse .outOfMemory
  | .error error => refuse error

def leaseOne : Program LockName FramePool PhysAddr := lease 1

/-- Takes back `count` frames from `pa` on.  All of them have to be leased, but
they need not have been leased together. -/
def giveBack (pa : PhysAddr) (count : Nat) : Program LockName FramePool Unit := do
  match ← inspect (·.frameIndex? pa) with
  | none =>
      report (.framesUnmanaged pa count)
      refuse (.invalidFree pa)
  | some index =>
      if ← locked (reclaim index count) then
        report (.framesReturned pa count)
      else
        report (.framesUnleased pa count)
        refuse (.invalidFree pa)

/-- Marks `count` frames from `pa` on as leased, for memory that is in use
already. -/
def reserve (pa : PhysAddr) (count : Nat) : Program LockName FramePool Unit := do
  match ← inspect (·.frameIndex? pa) with
  | none => refuse (.invalidArgument .reservationOutside)
  | some index =>
      locked (occupy index count)
      report (.framesReserved count pa)

def stats : Program LockName FramePool FrameUsage :=
  locked (do (← get).usage)

end KernelMemory.FramePool
