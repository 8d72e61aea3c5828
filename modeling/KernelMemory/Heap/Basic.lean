import KernelMemory.DirectMap
import KernelMemory.FramePool.Basic
import KernelMemory.Heap.Region

/-!
# The heap

A table of regions, each slot empty or taken, and two counters for readers that
take no lock.  A heap lives in an arena: the physical memory that holds its
maps and blocks, and the frame pool that it leases regions from.

This module has the data, the usage of a heap, and the sections that search the
table in slot order.
-/

namespace KernelMemory

open Parameters (unitBytes maxHeapRegions)

/-- Blocks of memory inside leased regions. -/
structure Heap where
  /-- How clients see physical memory. -/
  map : DirectMap
  regions : List (Option Region)
  /-- Bytes held by blocks. -/
  allocatedBytes : Counter
  /-- The number of blocks. -/
  liveAllocations : Counter

/-- Heap usage; bytes count whole units. -/
structure HeapUsage where
  regions : Nat
  frames : Nat
  /-- Bytes that blocks can take in all regions together. -/
  capacity : Nat
  used : Nat
  free : Nat
  liveAllocations : UInt64
  deriving DecidableEq

namespace HeapUsage

def describe (stats : HeapUsage) : String :=
  Text.record "HeapStats" [
    ("regions", toString stats.regions),
    ("frames", toString stats.frames),
    ("capacity", toString stats.capacity),
    ("used", toString stats.used),
    ("free", toString stats.free),
    ("live_allocations", toString stats.liveAllocations)]

def addRegion (stats : HeapUsage) (region : Region) : Result HeapUsage := do
  return { stats with
    regions := ← Word.add stats.regions 1
    frames := ← Word.add stats.frames region.frames
    capacity := ← Word.add stats.capacity (← region.capacity)
    used := ← Word.add stats.used (← Word.mul region.used unitBytes)
    free := ← Word.add stats.free (← Word.mul (← region.freeUnits) unitBytes) }

end HeapUsage

namespace Heap

def empty (map : DirectMap) : Heap where
  map := map
  regions := List.replicate maxHeapRegions none
  allocatedBytes := .zero
  liveAllocations := .zero

def region? (heap : Heap) (slot : Nat) : Option Region := heap.regions[slot]?.join

def setSlot (heap : Heap) (slot : Nat) (content : Option Region) : Heap :=
  { heap with regions := heap.regions.set slot content }

def emptySlot? (heap : Heap) : Option Nat :=
  heap.regions.findIdx? (·.isNone)

/-- The usage that the region table shows. -/
def usage (heap : Heap) : Result HeapUsage :=
  (heap.regions.filterMap id).foldlM HeapUsage.addRegion {
    regions := 0
    frames := 0
    capacity := 0
    used := 0
    free := 0
    liveAllocations := heap.liveAllocations.value }

/-- Counts a new block of `units` units. -/
def countPlaced (heap : Heap) (units : Nat) : Result Heap := do
  let bytes ← Word.mul units unitBytes
  return { heap with
    allocatedBytes := (heap.allocatedBytes.add (UInt64.ofNat bytes)).2
    liveAllocations := heap.liveAllocations.increment.2 }

/-- Counts a block of `units` units as gone. -/
def countRemoved (heap : Heap) (units : Nat) : Result Heap := do
  let bytes ← Word.mul units unitBytes
  return { heap with
    allocatedBytes := (heap.allocatedBytes.sub (UInt64.ofNat bytes)).2
    liveAllocations := heap.liveAllocations.decrement.2 }

end Heap

/-- A heap with the memory it manages and the frames under it. -/
structure Arena where
  memory : Memory
  frames : FramePool
  heap : Heap

namespace Arena

def framesPart : Program.Focus Arena FramePool :=
  fun arena => some (arena.frames, fun frames => { arena with frames })

/-- Runs a section on the memory of an arena. -/
def onMemory {α : Type} (body : Section Memory α) : Section Arena α :=
  body.zoom (·.memory) fun arena memory => { arena with memory }

/-- Places a block in the first region of the table that has room, and gives
the table after it. -/
def placeInTable (map : DirectMap) (units alignUnits : Nat) :
    List (Option Region) → Section Memory (Option (PhysAddr × List (Option Region)))
  | [] => return none
  | none :: rest => do
      match ← placeInTable map units alignUnits rest with
      | some (pa, rest) => return some (pa, none :: rest)
      | none => return none
  | some region :: rest => do
      let placed ←
        if (← region.freeUnits) < units then pure none
        else region.place map units alignUnits
      match placed with
      | some (pa, region) => return some (pa, some region :: rest)
      | none =>
          match ← placeInTable map units alignUnits rest with
          | some (pa, rest) => return some (pa, some region :: rest)
          | none => return none

/-- Removes the block that starts at an address from the first region of the
table that contains the address, and gives the block's size and the table after
it. -/
def removeFromTable (map : DirectMap) (pa : PhysAddr) :
    List (Option Region) → Section Memory (Option (Nat × List (Option Region)))
  | [] => return none
  | none :: rest => do
      match ← removeFromTable map pa rest with
      | some (units, rest) => return some (units, none :: rest)
      | none => return none
  | some region :: rest => do
      if ← region.contains pa then
        match ← region.remove map pa with
        | some (units, region) => return some (units, some region :: rest)
        | none => return none
      else
        match ← removeFromTable map pa rest with
        | some (units, rest) => return some (units, some region :: rest)
        | none => return none

/-- Places a block in the regions there are. -/
def place (units alignUnits : Nat) : Section Arena (Option PhysAddr) := do
  let heap := (← get).heap
  match ← onMemory (placeInTable heap.map units alignUnits heap.regions) with
  | some (pa, regions) =>
      modify fun arena => { arena with heap := { arena.heap with regions } }
      return some pa
  | none => return none

/-- Places a block in the region of one slot. -/
def placeInSlot (slot units alignUnits : Nat) : Section Arena PhysAddr := do
  let heap := (← get).heap
  match heap.region? slot with
  | none => .refuse .outOfMemory
  | some region =>
      match ← onMemory (region.place heap.map units alignUnits) with
      | some (pa, region) =>
          modify fun arena => { arena with heap := arena.heap.setSlot slot (some region) }
          return pa
      | none => .refuse .outOfMemory

/-- Removes the block that starts at an address, counts it as gone and gives
its size in units; `none` if no block starts there. -/
def remove (pa : PhysAddr) : Section Arena (Option Nat) := do
  let heap := (← get).heap
  match ← onMemory (removeFromTable heap.map pa heap.regions) with
  | some (units, regions) =>
      modify fun arena => { arena with heap := { arena.heap with regions } }
      let heap ← (← get).heap.countRemoved units
      modify fun arena => { arena with heap }
      return some units
  | none => return none

def countPlaced (units : Nat) : Section Arena Unit := do
  let heap ← (← get).heap.countPlaced units
  modify fun arena => { arena with heap }

end Arena

end KernelMemory
