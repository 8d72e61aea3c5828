import KernelMemory.Heap.Pointers
import KernelMemory.Sync.Interrupts
import KernelMemory.Sync.OnceCell

/-!
# The process-wide allocators

The kernel has one frame pool and one heap, created once from the memory
range that the boot code reports.  The frame bitmap lies in static storage, and
the heap sees memory through the higher-half direct map.

Every operation masks interrupts around its work on an allocator, so a handler
on the same processor never finds a lock held by the code it interrupted.
Before initialisation the operations are refused, and pointers are null.
-/

namespace KernelMemory

open Program

/-- What a kernel process holds. -/
structure Kernel where
  /-- Whether interrupts are enabled on this processor. -/
  interrupts : Bool
  /-- Whether the static frame bitmap has been lent out. -/
  bitmapTaken : Bool
  /-- The static frame bitmap. -/
  bitmapStorage : ByteArray
  frames : OnceCell FramePool
  heap : OnceCell Heap
  memory : Memory

namespace Kernel

/-- A process in which nothing has been initialised. -/
def boot (memory : Memory) : Kernel where
  interrupts := Interrupts.initially
  bitmapTaken := false
  bitmapStorage := Bytes.replicate Parameters.maxFrameBitmapBytes 0
  frames := .empty
  heap := .empty
  memory := memory

def interruptFlag : Focus Kernel Bool :=
  fun k => some (k.interrupts, fun interrupts => { k with interrupts })

def framesCell : Focus Kernel (OnceCell FramePool) :=
  fun k => some (k.frames, fun frames => { k with frames })

def heapCell : Focus Kernel (OnceCell Heap) :=
  fun k => some (k.heap, fun heap => { k with heap })

def memoryPart : Focus Kernel Memory :=
  fun k => some (k.memory, fun memory => { k with memory })

/-- The frame pool, once there is one. -/
def framesPart : Focus Kernel FramePool :=
  fun k =>
    match k.frames with
    | .ready frames => some (frames, fun frames => { k with frames := .ready frames })
    | _ => none

/-- The heap with its memory and frames, once there is one. -/
def arenaPart : Focus Kernel Arena :=
  fun k =>
    match k.frames, k.heap with
    | .ready frames, .ready heap =>
        some (⟨k.memory, frames, heap⟩, fun arena =>
          { k with
            memory := arena.memory
            frames := .ready arena.frames
            heap := .ready arena.heap })
    | _, _ => none

/-- Marks the static bitmap as lent out and says whether it was already. -/
def takeBitmap : Program LockName Kernel Bool :=
  .step (fun k => some (k.bitmapTaken, { k with bitmapTaken := true })) (.done ∘ .ok)

/-- Creates the allocators over `totalMemory` bytes from `base` on. -/
def setUp (base : PhysAddr) (totalMemory : UInt64) : Program LockName Kernel Unit := do
  if Parameters.maxPhysicalMemory < totalMemory then
    refuse (.invalidArgument .memoryTooLarge)
  else if ← takeBitmap then
    refuse .alreadyInitialized
  else
    let storage ← inspect (·.bitmapStorage)
    match ← outcome (FramePool.setUp base totalMemory storage) with
    | .error error =>
        update fun k => { k with bitmapTaken := false }
        refuse error
    | .ok pool =>
        match ← OnceCell.set framesCell pool with
        | .error _ => refuse .alreadyInitialized
        | .ok _ =>
            match ← OnceCell.set heapCell (Heap.empty .higherHalf) with
            | .error _ => refuse .alreadyInitialized
            | .ok _ => report (.memoryInitialized totalMemory base)

/-- Runs `body` once there is a frame pool, with interrupts masked. -/
def withFrames {α : Type} (body : Program LockName Kernel α) : Program LockName Kernel α := do
  if ← OnceCell.isInitialized framesCell then
    Interrupts.masked interruptFlag body
  else
    refuse .notInitialized

/-- Runs `body` once there is a heap, with interrupts masked. -/
def withHeap {α : Type} (body : Program LockName Kernel α) : Program LockName Kernel α := do
  if ← OnceCell.isInitialized heapCell then
    Interrupts.masked interruptFlag body
  else
    refuse .notInitialized

def onFrames {α : Type} (body : Program LockName FramePool α) : Program LockName Kernel α :=
  withFrames (within framesPart body)

def onHeap {α : Type} (body : Program LockName Arena α) : Program LockName Kernel α :=
  withHeap (within arenaPart body)

/-- Bytes of physical memory under management. -/
def totalMemory : Program LockName Kernel UInt64 := do
  match ← OnceCell.get framesCell with
  | some pool => return pool.totalMemory
  | none => refuse .notInitialized

def leaseFrames (count : Nat) : Program LockName Kernel PhysAddr :=
  onFrames (FramePool.lease count)

def giveBackFrames (pa : PhysAddr) (count : Nat) : Program LockName Kernel Unit :=
  onFrames (FramePool.giveBack pa count)

def reserveFrames (pa : PhysAddr) (count : Nat) : Program LockName Kernel Unit :=
  onFrames (FramePool.reserve pa count)

def frameUsage : Program LockName Kernel FrameUsage := onFrames FramePool.stats

def heapUsage : Program LockName Kernel HeapUsage := onHeap Arena.stats

def alloc (size : UInt64) : Program LockName Kernel PhysAddr := onHeap (Arena.alloc size)

def free (pa : PhysAddr) : Program LockName Kernel Unit := onHeap (Arena.free pa)

/-- The pointer that `body` gives, and none if it is refused. -/
def pointerOrNone (body : Program LockName Kernel (Option VirtAddr)) :
    Program LockName Kernel (Option VirtAddr) := do
  match ← outcome body with
  | .ok pointer => return pointer
  | .error _ => return none

/-- Allocates a block and gives a pointer to it. -/
def allocPointer (size : UInt64) : Program LockName Kernel (Option VirtAddr) :=
  pointerOrNone (onHeap (Arena.allocPointer size))

def freePointer (pointer : VirtAddr) : Program LockName Kernel Unit := do
  if pointer.isNull then
    return ()
  else
    onHeap (Arena.freePointer pointer)

/-- Takes back a block; does nothing while there is no heap. -/
def dealloc (pointer : VirtAddr) : Program LockName Kernel Unit := do
  let _ ← outcome (onHeap (Arena.dealloc pointer))
  return ()

/-- The process-wide heap as the allocator of the kernel's collections. -/
def blockAllocator : BlockAllocator Kernel where
  alloc := fun layout => pointerOrNone (onHeap (Arena.allocLayout layout))
  dealloc := dealloc
  map := .higherHalf
  memory := memoryPart

end Kernel

end KernelMemory
