import KernelMemory.Heap.Blocks
import KernelMemory.Interleaving

/-!
# Workloads on the allocators

Contexts that lease frames or allocate blocks and give back their oldest one
every third time.  Each workload is followed along one schedule, in which the
contexts take turns, and is summed up by what they hold and what the allocators
count when that run has ended.
-/

namespace KernelMemory.Workload

open Program

/-- A piece of physical memory that a context holds. -/
structure Holding where
  address : PhysAddr
  /-- How many frames, or bytes, it has. -/
  count : Nat

def overlap (a b : PhysAddr × Nat) : Bool :=
  decide (a.1.val.toNat < b.1.val.toNat + b.2 ∧ b.1.val.toNat < a.1.val.toNat + a.2)

def anyOverlap : List (PhysAddr × Nat) → Bool
  | [] => false
  | run :: rest => rest.any (overlap run) || anyOverlap rest

def base : PhysAddr := ⟨0x100000⟩

/-- Leases one to three frames in turn, and gives the oldest lease back after
every third. -/
def leaseRepeatedly : (rounds i : Nat) → List Holding →
    Program LockName FramePool (List Holding)
  | 0, _, held => return held
  | rounds + 1, i, held => do
      let count := 1 + i % 3
      let address ← FramePool.lease count
      match held ++ [{ address, count }] with
      | oldest :: others =>
          if i % 3 = 2 then
            FramePool.giveBack oldest.address oldest.count
            leaseRepeatedly rounds (i + 1) others
          else
            leaseRepeatedly rounds (i + 1) (oldest :: others)
      | [] => leaseRepeatedly rounds (i + 1) []

structure FrameOutcome where
  overlap : Bool
  stats : FrameUsage
  allocated : Nat

/-- Lets contexts lease frames from an allocator that has enough for all. -/
def frames (kind : LockKind) (contexts iterations : Nat) : Result FrameOutcome := do
  let total := UInt64.ofNat (contexts * iterations * 3) * Parameters.frameSize
  let storage := Bytes.replicate (FramePool.bitmapBytesFor total) 0
  let frames ← FramePool.create base total storage
  let programs := List.replicate contexts (leaseRepeatedly iterations 0 [])
  let final := takeTurns ((contexts + 1) * (iterations + 1) * 32) (.fresh kind frames) programs
  let held := final.delivered.flatten.map fun lease =>
    (lease.address, lease.count * FramePool.frameBytes)
  let stats ← final.shared.state.usage
  return {
    overlap := anyOverlap held
    stats
    allocated := final.shared.state.allocatedFrames }

/-- Allocates blocks of about `16 * (t + 1)` bytes, and frees the oldest after
every third. -/
def allocateRepeatedly (t : Nat) : (rounds i : Nat) → List Holding →
    Program LockName Arena (List Holding)
  | 0, _, held => return held
  | rounds + 1, i, held => do
      let count := 16 * (t + 1) + i % 7
      let address ← Arena.alloc (UInt64.ofNat count)
      match held ++ [{ address, count }] with
      | oldest :: others =>
          if i % 3 = 2 then
            Arena.free oldest.address
            allocateRepeatedly t rounds (i + 1) others
          else
            allocateRepeatedly t rounds (i + 1) (oldest :: others)
      | [] => allocateRepeatedly t rounds (i + 1) []

structure HeapOutcome where
  overlap : Bool
  stats : HeapUsage
  allocatedBytes : UInt64
  /-- Whether used and free bytes make up the capacity. -/
  conserved : Bool
  /-- Whether the frames leased are those of the regions. -/
  framesMatch : Bool

/-- Lets contexts allocate blocks from a heap over 4096 frames. -/
def heap (kind : LockKind) (contexts iterations : Nat) : Result HeapOutcome := do
  let total := 4096 * Parameters.frameSize
  let storage := Bytes.replicate (FramePool.bitmapBytesFor total) 0
  let frames ← FramePool.create base total storage
  let arena : Arena := ⟨.filled base 0 0, frames, .empty .higherHalf⟩
  let programs := (List.range contexts).map fun t => allocateRepeatedly t iterations 0 []
  let final := takeTurns ((contexts + 1) * (iterations + 1) * 64) (.fresh kind arena) programs
  let held := final.delivered.flatten.map fun block => (block.address, block.count)
  let stats ← final.shared.state.heap.usage
  let frameStats ← final.shared.state.frames.usage
  return {
    overlap := anyOverlap held
    stats
    allocatedBytes := final.shared.state.heap.allocatedBytes.value
    conserved := stats.used + stats.free = stats.capacity
    framesMatch := frameStats.allocated = stats.frames }

end KernelMemory.Workload
