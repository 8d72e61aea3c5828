import KernelMemory.Failure
import KernelMemory.Parameters

/-!
# What the allocators report

Each event is one line of the log: a level and a message.
-/

namespace KernelMemory

/-- How much an event matters. -/
inductive Level where
  | trace
  | debug
  | info
  | warn
  deriving DecidableEq

def Level.name : Level → String
  | .trace => "TRACE"
  | .debug => "DEBUG"
  | .info => "INFO"
  | .warn => "WARN"

/-- Something worth reporting. -/
inductive Event where
  /-- A frame pool took charge of its range. -/
  | framesManaged (count : Nat) (base : PhysAddr) (bitmapBytes : Nat)
  | framesLeased (count : Nat) (first : PhysAddr)
  | noFreeRun (count : Nat)
  | framesUnmanaged (first : PhysAddr) (count : Nat)
  | framesUnleased (first : PhysAddr) (count : Nat)
  | framesReturned (first : PhysAddr) (count : Nat)
  | framesReserved (count : Nat) (first : PhysAddr)
  | blockAllocated (size : UInt64) (address : PhysAddr)
  | blockRefused (size : UInt64) (error : AllocError)
  | blockUnknown (address : PhysAddr)
  | blockFreed (address : PhysAddr) (bytes : Nat)
  | regionTableFull
  | regionLeased (frames : Nat) (base : PhysAddr) (bytes : Nat)
  | regionReturned (frames : Nat) (base : PhysAddr)
  /-- A heap was dropped while a region still held blocks. -/
  | regionLeaked (frames : Nat) (base : PhysAddr) (bytes : Nat)
  /-- A heap was dropped and the frame pool would not take a region back. -/
  | regionKept (base : PhysAddr) (error : AllocError)
  | memoryInitialized (bytes : UInt64) (base : PhysAddr)
  deriving DecidableEq

namespace Event

def level : Event → Level
  | .framesManaged _ _ _ | .framesReserved _ _ | .memoryInitialized _ _ => .info
  | .framesLeased _ _ | .framesReturned _ _ | .blockAllocated _ _ | .blockFreed _ _ => .trace
  | .regionLeased _ _ _ | .regionReturned _ _ => .debug
  | .noFreeRun _ | .framesUnmanaged _ _ | .framesUnleased _ _ | .blockRefused _ _
  | .blockUnknown _ | .regionTableFull | .regionLeaked _ _ _ | .regionKept _ _ => .warn

def message : Event → String
  | .framesManaged count base bitmapBytes =>
      s!"frame allocator: {count} frames of {Parameters.frameSize} bytes at {base.text}, "
        ++ s!"bitmap {bitmapBytes} bytes"
  | .framesLeased count first => s!"alloc_frames({count}) = {first.text}"
  | .noFreeRun count => s!"alloc_frames({count}): no free run"
  | .framesUnmanaged first count => s!"free_frames({first.text}, {count}): not a managed frame"
  | .framesUnleased first count => s!"free_frames({first.text}, {count}): run is not leased"
  | .framesReturned first count => s!"free_frames({first.text}, {count})"
  | .framesReserved count first => s!"reserved {count} frames at {first.text}"
  | .blockAllocated size address => s!"pmalloc({size}) = {address.text}"
  | .blockRefused size error => s!"pmalloc({size}): {error.message}"
  | .blockUnknown address => s!"pfree({address.text}): not a live heap allocation"
  | .blockFreed address bytes => s!"pfree({address.text}) released {bytes} bytes"
  | .regionTableFull => s!"heap: all {Parameters.maxHeapRegions} region slots in use"
  | .regionLeased frames base bytes =>
      s!"heap: leased {frames} frames at {base.text}, {bytes} bytes allocatable"
  | .regionReturned frames base => s!"heap: returned {frames} frames at {base.text}"
  | .regionLeaked frames base bytes =>
      s!"heap: leaking {frames} frames at {base.text} with {bytes} bytes still allocated"
  | .regionKept base error =>
      s!"heap: could not return region at {base.text}: {error.message}"
  | .memoryInitialized bytes base => s!"memory initialized: {bytes} bytes at {base.text}"

/-- The line an event leaves in the log. -/
def line (event : Event) : String := event.level.name ++ " " ++ event.message

end Event

end KernelMemory
