import KernelMemory.FramePool.Lease
import KernelMemory.Heap.Basic

/-!
# Blocks by physical address

The heap's operations as programs on its arena.  Each holds the heap lock for
all of its work on the table and the maps.  A heap that has no room leases a
new region, and takes the frame lock inside the heap lock for that; nothing
takes them the other way round.
-/

namespace KernelMemory.Arena

open Program
open Parameters (unitBytes maxHeapRegions frameSize)

/-- Leases and formats a region with room for `units` units, and gives its
slot. -/
def grow (units alignUnits : Nat) : Program LockName Arena Nat := do
  match ← inspect (·.heap.emptySlot?) with
  | none =>
      report .regionTableFull
      refuse .outOfMemory
  | some slot =>
      let frames ← ofResult (Region.framesFor units alignUnits)
      let base ← within framesPart (FramePool.lease frames)
      let region ← ofResult (Region.create base frames)
      let map ← inspect (·.heap.map)
      match ← outcome (critical (onMemory (region.format map))) with
      | .error error =>
          let _ ← outcome (within framesPart (FramePool.giveBack base frames))
          refuse error
      | .ok () =>
          report (.regionLeased frames base (← ofResult region.capacity))
          update fun arena => { arena with heap := arena.heap.setSlot slot (some region) }
          return slot

/-- Places a block, in a new region if no other has room. -/
def placeOrGrow (units alignUnits : Nat) : Program LockName Arena PhysAddr := do
  match ← critical (place units alignUnits) with
  | some pa => return pa
  | none =>
      let slot ← grow units alignUnits
      critical (placeInSlot slot units alignUnits)

/-- Allocates a block of `size` bytes, in whole units, at a multiple of
`align`. -/
def allocAligned (size align : UInt64) : Program LockName Arena PhysAddr := do
  if size = 0 then
    refuse (.invalidArgument .emptyBlock)
  else if ¬ align.toNat.isPowerOfTwo ∨ frameSize < align then
    refuse (.invalidArgument .alignmentUnsupported)
  else
    let units := ceilDiv size.toNat unitBytes
    let alignUnits := max (align.toNat / unitBytes) 1
    let placed ← withLock .heap do
      let placed ← outcome (placeOrGrow units alignUnits)
      if placed.isOk then critical (countPlaced units)
      return placed
    match placed with
    | .ok pa =>
        report (.blockAllocated size pa)
        return pa
    | .error error =>
        report (.blockRefused size error)
        refuse error

/-- Allocates a block of `size` bytes, in whole units. -/
def alloc (size : UInt64) : Program LockName Arena PhysAddr :=
  allocAligned size (UInt64.ofNat unitBytes)

/-- Frees the block that starts at an address. -/
def free (pa : PhysAddr) : Program LockName Arena Unit := do
  match ← withLock .heap (critical (remove pa)) with
  | none =>
      report (.blockUnknown pa)
      refuse (.invalidFree pa)
  | some units =>
      report (.blockFreed pa (← ofResult (Word.mul units unitBytes)))

/-- Gives the region of one slot back if it holds no block, and says whether it
did. -/
def releaseSlot (slot : Nat) : Program LockName Arena Bool := do
  match ← inspect (·.heap.region? slot) with
  | none => return false
  | some region =>
      if region.used = 0 then
        match ← outcome (within framesPart (FramePool.giveBack region.base region.frames)) with
        | .ok () =>
            report (.regionReturned region.frames region.base)
            update fun arena => { arena with heap := arena.heap.setSlot slot none }
            return true
        | .error _ => return false
      else
        return false

/-- Gives back the regions without blocks among some slots, and counts them. -/
def releaseSlots : List Nat → Program LockName Arena Nat
  | [] => return 0
  | slot :: rest => do
      let here ← releaseSlot slot
      let others ← releaseSlots rest
      return if here then others + 1 else others

/-- Gives every region without blocks back to the frame pool, and counts
them. -/
def releaseEmptyRegions : Program LockName Arena Nat :=
  withLock .heap (releaseSlots (List.range maxHeapRegions))

def stats : Program LockName Arena HeapUsage :=
  withLock .heap (critical do (← get).heap.usage)

/-- Bytes held by blocks, read without a lock. -/
def allocatedBytes : Program LockName Arena UInt64 :=
  inspect (·.heap.allocatedBytes.value)

/-- Empties one slot of a heap that goes away.  A region with blocks stays
leased for ever, because clients may still hold addresses in it. -/
def dropSlot (slot : Nat) : Program LockName Arena Unit := do
  match ← inspect (·.heap.region? slot) with
  | none => return ()
  | some region =>
      update fun arena => { arena with heap := arena.heap.setSlot slot none }
      if region.used ≠ 0 then
        let bytes ← ofResult (Word.mul region.used unitBytes)
        report (.regionLeaked region.frames region.base bytes)
      else
        match ← outcome (within framesPart (FramePool.giveBack region.base region.frames)) with
        | .ok () => return ()
        | .error error => report (.regionKept region.base error)

/-- Empties some slots of a heap that goes away. -/
def dropSlots : List Nat → Program LockName Arena Unit
  | [] => return ()
  | slot :: rest => do
      dropSlot slot
      dropSlots rest

/-- Gives the regions without blocks back before the heap goes away.  Nobody
else can reach the heap any more, so its lock is not taken. -/
def teardown : Program LockName Arena Unit :=
  dropSlots (List.range maxHeapRegions)

end KernelMemory.Arena
