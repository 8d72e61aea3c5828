import KernelMemory.Address.Basic
import KernelMemory.Word

/-!
# Memory parameters

Where physical memory is visible, how large a frame is, and how the heap is
divided and grows.  How much physical memory there is and where it starts are
not parameters: they are given when an allocator is created.
-/

namespace KernelMemory.Parameters

/-- Where the higher-half direct map shows physical address zero. -/
def directMapBase : UInt64 := 0xFFFF888000000000

def frameSize : UInt64 := PageSize.size4K.bytes

/-- Bytes in the smallest block the heap hands out, which is also the alignment
that every block has. -/
def heapUnitSize : UInt64 := 16

/-- The least number of frames the heap leases at a time. -/
def heapGrowFrames : Nat := 16

/-- Slots in the heap's region table. -/
def maxHeapRegions : Nat := 64

/-- The most physical memory that the process-wide frame pool can track. -/
def maxPhysicalMemory : UInt64 := 64 * 1024 * 1024 * 1024

/-- Bytes of bitmap that track `maxPhysicalMemory`. -/
def maxFrameBitmapBytes : Nat :=
  ceilDiv (maxPhysicalMemory / frameSize).toNat 8

def unitBytes : Nat := heapUnitSize.toNat

def unitsPerFrame : Nat := (frameSize / heapUnitSize).toNat

/-- Heap units per frame under the two maps of a region, which take one bit per
unit each. -/
def mapUnitsPerFrame : Nat := 2 * unitsPerFrame / 8 / unitBytes

end KernelMemory.Parameters
