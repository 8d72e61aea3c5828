import KernelMemory.Sync.Contention
import KernelMemory.Sync.Counter
import KernelMemory.Sync.OnceCell

/-!
# Workloads on the synchronisation primitives

Small groups of contexts that share a counter, a lock or a write-once cell.
Each is followed along one schedule, in which the contexts take turns.
-/

namespace KernelMemory.Workload

open Program

/-- Adds `amount` to a counter `iterations` times, or subtracts it. -/
def countRepeatedly (subtract : Bool) (amount : UInt64) :
    (iterations : Nat) → Program LockKind Counter Unit
  | 0 => return ()
  | n + 1 => do
      let _ ← (.step (fun c => some (if subtract then c.sub amount else c.add amount))
        (.done ∘ .ok) : Program LockKind Counter UInt64)
      countRepeatedly subtract amount n

/-- The counter after contexts with an even number have added and those with an
odd number have subtracted. -/
def counter (initial amount : UInt64) (contexts iterations : Nat) : UInt64 :=
  let programs := (List.range contexts).map fun t =>
    countRepeatedly (t % 2 = 1) amount iterations
  (takeTurns (iterations + 1) (.fresh .spin ⟨initial⟩) programs).shared.state.value

/-- The value and the lock after every context has added one `iterations` times
under the lock. -/
def lockedIncrements (kind : LockKind) (contexts iterations : Nat) : UInt64 × Bool :=
  let start := Contention.start kind (0 : UInt64)
    (List.replicate contexts (.updates (· + 1) iterations))
  let final := start.settle Contention.step ((contexts + 1) * (iterations + 1) * 8)
  (final.shared.value, final.shared.lock.held)

/-- What is seen of a context that wants a lock held by someone else. -/
structure Waiting where
  /-- Whether it got in while the lock was held. -/
  enteredEarly : Bool
  /-- Whether it got in once the lock was free. -/
  entered : Bool
  /-- Whether the lock is held in the end. -/
  locked : Bool

/-- Lets a context wait for a held lock, and then frees it. -/
def waiting (kind : LockKind) : Waiting :=
  let held := (RawLock.create kind).tryAcquire.2
  let start : Config (Contention.Shared Bool) (Contention.Context Bool) :=
    ⟨⟨held, false⟩, [.running (.updates (fun _ => true) 1)]⟩
  let early := start.settle Contention.step 100
  let freed := { early.shared with lock := early.shared.lock.release.2 }
  let final := ({ early with shared := freed }).settle Contention.step 100
  { enteredEarly := early.shared.value
    entered := final.shared.value
    locked := final.shared.lock.held }

/-- A cell, and how often an initialiser of it has run. -/
structure Race where
  cell : OnceCell Nat
  runs : Nat

def Race.cellPart : Focus Race (OnceCell Nat) :=
  fun race => some (race.cell, fun cell => { race with cell })

/-- Lets every context initialise one cell with its own number.  Gives how
often an initialiser ran and the values that the contexts got. -/
def race (contexts : Nat) : Nat × List Nat :=
  let programs : List (Program LockKind Race Nat) := (List.range contexts).map fun t =>
    OnceCell.getOrInit Race.cellPart do
      update fun race => { race with runs := race.runs + 1 }
      return t
  let final := takeTurns (16 * (contexts + 1)) (.fresh .spin ⟨.empty, 0⟩) programs
  (final.shared.state.runs, final.delivered)

/-- A cell whose initialiser stays inside until a gate opens. -/
structure Gated where
  cell : OnceCell UInt64
  inside : Bool
  gate : Bool

def Gated.cellPart : Focus Gated (OnceCell UInt64) :=
  fun gated => some (gated.cell, fun cell => { gated with cell })

/-- What the contexts of a gated initialisation report. -/
inductive GateReport where
  /-- What an observer saw during the initialisation: whether the cell was
  ready, its value, and whether it turned another value away. -/
  | during (initialized : Bool) (value : Option UInt64) (rejected : Bool)
  /-- The value a context got. -/
  | got (value : UInt64)

/-- Initialises a cell to seven while an observer looks at it and a second
context asks for it. -/
def gatedInit : List GateReport :=
  let first : Program LockKind Gated GateReport := do
    let value ← OnceCell.getOrInit Gated.cellPart do
      update fun gated => { gated with inside := true }
      await fun gated => if gated.gate then some () else none
      return 7
    return .got value
  let observer : Program LockKind Gated GateReport := do
    await fun gated => if gated.inside then some () else none
    let initialized ← OnceCell.isInitialized Gated.cellPart
    let value ← OnceCell.get Gated.cellPart
    let stored ← OnceCell.set Gated.cellPart 9
    update fun gated => { gated with gate := true }
    return .during initialized value (!stored.isOk)
  let second : Program LockKind Gated GateReport := do
    await fun gated => if gated.inside then some () else none
    let value ← OnceCell.getOrInit Gated.cellPart (return 8)
    return .got value
  (takeTurns 100 (.fresh .spin ⟨.empty, false, false⟩) [first, observer, second]).delivered

end KernelMemory.Workload
