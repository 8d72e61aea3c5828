import KernelMemory.Heap.Pointers
import KernelMemory.Proofs.Heap.Recording

/-!
# Clients of a heap and its frame pool

The runs that the heap's guarantees are about.  Clients call the heap, lease
and return frames themselves, and store bytes; a `World` adds to the machine
what the clients know of it, which is the blocks and frames they hold.  What
clients may do is given by `Rules`: `Rules.confined` is the discipline that the
heap asks for, `Rules.wild` lets anybody store anywhere.
-/

namespace KernelMemory

open Finset Program

/-- A call of a client. -/
inductive Call where
  | allocAligned (size align : UInt64)
  | alloc (size : UInt64)
  | free (pa : PhysAddr)
  | allocPointer (size : UInt64)
  | freePointer (pointer : VirtAddr)
  | allocLayout (layout : Layout)
  | dealloc (pointer : VirtAddr)
  | releaseEmptyRegions
  | stats
  | leaseFrames (count : ℕ)
  | giveBackFrames (pa : PhysAddr) (count : ℕ)
  | reserveFrames (pa : PhysAddr) (count : ℕ)
  | frameStats

namespace Call

abbrev Answer : Call → Type
  | .allocAligned .. | .alloc _ | .leaseFrames _ => PhysAddr
  | .allocPointer _ | .allocLayout _ => Option VirtAddr
  | .releaseEmptyRegions => ℕ
  | .stats => HeapUsage
  | .frameStats => FrameUsage
  | .free _ | .freePointer _ | .dealloc _ | .giveBackFrames .. | .reserveFrames .. => Unit

def program : (call : Call) → Program LockName Arena call.Answer
  | .allocAligned size align => Arena.allocAligned size align
  | .alloc size => Arena.alloc size
  | .free pa => Arena.free pa
  | .allocPointer size => Arena.allocPointer size
  | .freePointer pointer => Arena.freePointer pointer
  | .allocLayout layout => Arena.allocLayout layout
  | .dealloc pointer => Arena.dealloc pointer
  | .releaseEmptyRegions => Arena.releaseEmptyRegions
  | .stats => Arena.stats
  | .leaseFrames count => within Arena.framesPart (FramePool.lease count)
  | .giveBackFrames pa count => within Arena.framesPart (FramePool.giveBack pa count)
  | .reserveFrames pa count => within Arena.framesPart (FramePool.reserve pa count)
  | .frameStats => within Arena.framesPart FramePool.stats

/-- The block that a call has obtained, by what it answered. -/
def obtained? (map : DirectMap) : (call : Call) → call.Answer → Option Block
  | .allocAligned size _, pa => some ⟨pa, ceilDiv size.toNat 16⟩
  | .alloc size, pa => some ⟨pa, ceilDiv size.toNat 16⟩
  | .allocPointer size, pointer =>
      pointer.map fun pointer => ⟨map.toPhysical pointer, ceilDiv size.toNat 16⟩
  | .allocLayout layout, pointer =>
      pointer.map fun pointer => ⟨map.toPhysical pointer, ceilDiv (max layout.size 1).toNat 16⟩
  | _, _ => none

/-- The address that a call is to free. -/
def freed? (map : DirectMap) : Call → Option PhysAddr
  | .free pa => some pa
  | .freePointer pointer | .dealloc pointer =>
      if pointer.isNull then none else some (map.toPhysical pointer)
  | _ => none

end Call

/-- A machine, and what its clients hold. -/
structure World where
  machine : Machine LockName Arena
  /-- The blocks that were allocated and not freed since. -/
  ledger : Finset Block
  /-- The frames that were leased or reserved by direct callers of the pool and
  not returned since. -/
  held : Finset ℕ
  /-- The blocks that were live when their heap went away. -/
  orphans : Finset Block
  /-- The frames that heaps left leased when they went away. -/
  abandoned : Finset ℕ

namespace World

variable (w : World)

abbrev arena : Arena := w.machine.state

abbrev memory : Memory := w.arena.memory

abbrev frames : FramePool := w.arena.frames

abbrev heap : Heap := w.arena.heap

abbrev regions : RegionTable := w.heap.regions

/-- The indices of `count` frames from an address on. -/
def frameRun (pa : PhysAddr) (count : ℕ) : Finset ℕ :=
  match w.frames.frameIndex? pa with
  | some index => Ico index (index + count)
  | none => ∅

/-- The ledger after a call, by what it answered: a block that it obtained is
added, and a free that succeeded removes the block of its address. -/
def ledgerAfter (call : Call) : Result call.Answer → Finset Block
  | .ok answer =>
      match call.obtained? w.heap.map answer, call.freed? w.heap.map with
      | some b, _ => insert b w.ledger
      | none, some pa => w.ledger.filter (·.address ≠ pa)
      | none, none => w.ledger
  | .error _ => w.ledger

/-- The frames that direct callers hold after a call, by what it answered. -/
def heldAfter : (call : Call) → Result call.Answer → Finset ℕ
  | .leaseFrames count, .ok pa => w.held ∪ w.frameRun pa count
  | .giveBackFrames pa count, .ok () => w.held \ w.frameRun pa count
  | .reserveFrames pa count, .ok () => w.held ∪ w.frameRun pa count
  | _, _ => w.held

/-- The world after a call has answered and left `machine`. -/
def called (call : Call) (result : Result call.Answer) (machine : Machine LockName Arena) :
    World :=
  { w with machine, ledger := w.ledgerAfter call result, held := w.heldAfter call result }

def stored (pa : PhysAddr) (byte : UInt8) : World :=
  { w with
    machine := { w.machine with
      state := { w.machine.state with memory := w.machine.state.memory.set pa byte } } }

@[simp] theorem ledger_stored (pa : PhysAddr) (byte : UInt8) :
    (w.stored pa byte).ledger = w.ledger := rfl

/-- The world after the heap has gone away and left `machine`, with a new heap
over the same memory and pool. -/
def restarted (machine : Machine LockName Arena) (map : DirectMap) : World where
  machine := { machine with state := { machine.state with heap := Heap.empty map } }
  ledger := ∅
  held := w.held
  orphans := w.orphans ∪ w.ledger
  abandoned := machine.state.frames.leasedFrames \ w.held

/-- Whether an address lies in a block that some client holds. -/
def InBlock (pa : PhysAddr) : Prop := ∃ b ∈ w.ledger ∪ w.orphans, b.Covers pa.val.toNat

/-- Whether an address lies in one of some frames. -/
def InFrames (frames : Finset ℕ) (pa : PhysAddr) : Prop :=
  ∃ i ∈ frames, w.frames.frameStart i ≤ pa.val.toNat ∧ pa.val.toNat < w.frames.frameStart (i + 1)

/-- Nobody returns frames of somebody else: a return that would succeed is for
frames that direct callers hold. -/
def Permits : Call → Prop
  | .giveBackFrames pa count =>
      ∀ index, w.frames.Returnable pa count index → Ico index (index + count) ⊆ w.held
  | _ => True

end World

/-- What clients may do besides calls. -/
structure Rules where
  /-- The addresses that somebody may store to. -/
  mayStore : World → PhysAddr → Prop
  /-- Whether the heap may go away. -/
  mayDrop : Prop

namespace Rules

/-- Clients store only to blocks and frames that they hold, and the heap
stays. -/
def confined : Rules where
  mayStore w pa := w.InBlock pa ∨ w.InFrames w.held pa
  mayDrop := False

/-- Clients store only to blocks and frames that they hold; the heap may go
away. -/
def tidy : Rules := { confined with mayDrop := True }

/-- Anybody stores anywhere but to the maps of the heap's regions; the heap may
go away. -/
def offMaps : Rules where
  mayStore w pa := ∀ slot region, RegionTable.Has w.regions slot region → ¬ region.InMaps pa
  mayDrop := True

/-- Anybody stores anywhere. -/
def wild : Rules where
  mayStore _ _ := True
  mayDrop := True

/-- Nobody stores: every step is a call, or takes the heap away. -/
def quiet : Rules where
  mayStore _ _ := False
  mayDrop := True

/-- The same rules, but nobody stores to one address. -/
def sparing (rules : Rules) (pa : PhysAddr) : Rules where
  mayStore w qa := rules.mayStore w qa ∧ qa ≠ pa
  mayDrop := rules.mayDrop

end Rules

namespace World

/-- A fresh heap over a fresh frame pool that it can see, with any memory and any
log. -/
structure Fresh (w : World) : Prop where
  pool : ∃ base totalMemory storage, FramePool.create base totalMemory storage = .ok w.frames
  heap : ∃ map, w.heap = Heap.empty map
  reaches : w.heap.map.Reaches w.frames
  locks : ∀ name, w.machine.locks.IsFree name
  ledger : w.ledger = ∅
  held : w.held = ∅
  orphans : w.orphans = ∅
  abandoned : w.abandoned = ∅

/-- One step of a run. -/
inductive Step (rules : Rules) (w : World) : World → Prop
  | call {call : Call} {result : Result call.Answer} {machine : Machine LockName Arena}
      (permitted : w.Permits call) (run : call.program.run w.machine = some (result, machine)) :
      Step rules w (w.called call result machine)
  | store {pa : PhysAddr} {byte : UInt8} (permitted : rules.mayStore w pa) :
      Step rules w (w.stored pa byte)
  | drop {result : Result Unit} {machine : Machine LockName Arena} {map : DirectMap}
      (permitted : rules.mayDrop) (reaches : map.Reaches w.frames)
      (run : Arena.teardown.run w.machine = some (result, machine)) :
      Step rules w (w.restarted machine map)

/-- The worlds that a run can reach. -/
inductive Reachable (rules : Rules) : World → Prop
  | fresh {w : World} (h : w.Fresh) : Reachable rules w
  | step {w w' : World} (h : Reachable rules w) (step : w.Step rules w') : Reachable rules w'

/-! ## Stricter rules -/

variable {rules rules' : Rules} {w w' : World}

theorem Step.mono
    (h : w.Step rules w') (hstore : ∀ w pa, rules.mayStore w pa → rules'.mayStore w pa)
    (hdrop : rules.mayDrop → rules'.mayDrop) : w.Step rules' w' := by
  cases h with
  | call permitted run => exact .call permitted run
  | store permitted => exact .store (hstore _ _ permitted)
  | drop permitted reaches run => exact .drop (hdrop permitted) reaches run

theorem Reachable.mono
    (h : Reachable rules w) (hstore : ∀ w pa, rules.mayStore w pa → rules'.mayStore w pa)
    (hdrop : rules.mayDrop → rules'.mayDrop) : Reachable rules' w := by
  induction h with
  | fresh h => exact .fresh h
  | step _ step ih => exact .step ih (step.mono hstore hdrop)

theorem Reachable.tidy_of_confined (h : Reachable Rules.confined w) : Reachable Rules.tidy w :=
  h.mono (fun _ _ hstore => hstore) False.elim

theorem Step.tidy_of_quiet (h : w.Step Rules.quiet w') : w.Step Rules.tidy w' :=
  h.mono (fun _ _ hstore => hstore.elim) id

theorem Step.tidy_of_sparing {pa : PhysAddr} (h : w.Step (Rules.tidy.sparing pa) w') :
    w.Step Rules.tidy w' :=
  h.mono (fun _ _ hstore => hstore.1) id

end World

end KernelMemory
