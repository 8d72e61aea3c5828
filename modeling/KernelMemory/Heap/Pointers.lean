import KernelMemory.Heap.Blocks

/-!
# Blocks by pointer

Clients see memory through the heap's direct map.  Allocation by pointer is
allocation by address seen through that map; it says only that it failed, not
why.  Freeing the null pointer does nothing.

`BlockAllocator` is the interface that collections allocate through.  It is
given by `alloc` and `dealloc`; zeroed and resized blocks are made from those
two and plain access to memory.
-/

namespace KernelMemory

open Program

/-- The size and alignment of a block. -/
structure Layout where
  size : UInt64
  align : UInt64

/-- Blocks by layout on a state `σ`. -/
structure BlockAllocator (σ : Type) where
  /-- A block for a layout, if there is room. -/
  alloc : Layout → Program LockName σ (Option VirtAddr)
  /-- Takes back a block. -/
  dealloc : VirtAddr → Program LockName σ Unit
  /-- Where a pointer of the client leads. -/
  map : DirectMap
  /-- The memory behind the pointers. -/
  memory : Focus σ Memory

namespace BlockAllocator

variable {σ : Type}

/-- Stores `n` copies of `byte` from a pointer on. -/
def fill (blocks : BlockAllocator σ) (target : VirtAddr) (n : Nat) (byte : UInt8) :
    Program LockName σ Unit :=
  within blocks.memory (update fun m => m.fill (blocks.map.toPhysical target) n byte)

/-- Copies `n` bytes from one pointer to another. -/
def copy (blocks : BlockAllocator σ) (source target : VirtAddr) (n : Nat) :
    Program LockName σ Unit :=
  within blocks.memory
    (update fun m => m.copy (blocks.map.toPhysical source) (blocks.map.toPhysical target) n)

/-- The `n` bytes from a pointer on. -/
def read (blocks : BlockAllocator σ) (source : VirtAddr) (n : Nat) :
    Program LockName σ ByteArray :=
  within blocks.memory (inspect fun m => m.read (blocks.map.toPhysical source) n)

def allocZeroed (blocks : BlockAllocator σ) (layout : Layout) :
    Program LockName σ (Option VirtAddr) := do
  match ← blocks.alloc layout with
  | none => return none
  | some pointer =>
      blocks.fill pointer layout.size.toNat 0
      return some pointer

/-- Moves a block to one of `newSize` bytes with the same alignment.  If there
is no room the old block stays. -/
def realloc (blocks : BlockAllocator σ) (pointer : VirtAddr) (layout : Layout)
    (newSize : UInt64) : Program LockName σ (Option VirtAddr) := do
  match ← blocks.alloc { layout with size := newSize } with
  | none => return none
  | some target =>
      blocks.copy pointer target (min layout.size newSize).toNat
      blocks.dealloc pointer
      return some target

end BlockAllocator

namespace Arena

/-- Allocates a block of `size` bytes and gives a pointer to it. -/
def allocPointer (size : UInt64) : Program LockName Arena (Option VirtAddr) := do
  match ← outcome (alloc size) with
  | .ok pa =>
      let map ← inspect (·.heap.map)
      return (map.toVirtual pa).nonNull?
  | .error _ => return none

def freePointer (pointer : VirtAddr) : Program LockName Arena Unit := do
  if pointer.isNull then
    return ()
  else
    let map ← inspect (·.heap.map)
    free (map.toPhysical pointer)

/-- Allocates a block for a layout; an empty one still gets a unit. -/
def allocLayout (layout : Layout) : Program LockName Arena (Option VirtAddr) := do
  match ← outcome (allocAligned (max layout.size 1) layout.align) with
  | .ok pa =>
      let map ← inspect (·.heap.map)
      return (map.toVirtual pa).nonNull?
  | .error _ => return none

/-- Takes back a block that must be one of the heap's. -/
def dealloc (pointer : VirtAddr) : Program LockName Arena Unit := do
  match ← outcome (freePointer pointer) with
  | .ok () => return ()
  | .error _ => fault .foreignDealloc

def memoryPart : Focus Arena Memory :=
  fun arena => some (arena.memory, fun memory => { arena with memory })

/-- A heap as the allocator of a client's collections. -/
def blockAllocator (map : DirectMap) : BlockAllocator Arena where
  alloc := allocLayout
  dealloc := dealloc
  map := map
  memory := memoryPart

end Arena

end KernelMemory
