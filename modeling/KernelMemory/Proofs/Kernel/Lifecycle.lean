import KernelMemory.Proofs.Kernel.Handlers
import KernelMemory.Proofs.FramePool.Construction
import KernelMemory.Proofs.Program.Respects

/-!
# The life of a process

Whether a process has its allocators is on record in three places: the flag
that says that the static bitmap is lent out, and the two cells.  A `Process`
is run call by call, with the moments inside closures, and remembers how every
initialisation ended.  The main statements say that the three records stay in
step over every run: `Reachable.initialised_once`, that initialisation succeeds
once, exactly for the ranges that can be managed, and leaves no trace when it
fails; `Reachable.setUp_of_succeeded`, how it is refused after that.
-/

namespace KernelMemory

open Program

namespace Kernel

variable {α : Type}

/-! ## What only initialisation changes -/

/-- Between two moments, the bitmap has not been lent out or given back, and no
cell has become ready or stopped being so. -/
structure Settled (k k' : Kernel) : Prop where
  taken : k'.bitmapTaken = k.bitmapTaken
  storage : k'.bitmapStorage = k.bitmapStorage
  frames : k'.frames = k.frames ∨ k.frames.isReady = true ∧ k'.frames.isReady = true
  heap : k'.heap = k.heap ∨ k.heap.isReady = true ∧ k'.heap.isReady = true

theorem Settled.refl (k : Kernel) : k.Settled k := ⟨rfl, rfl, Or.inl rfl, Or.inl rfl⟩

theorem Settled.trans {a b c : Kernel} (hab : a.Settled b) (hbc : b.Settled c) : a.Settled c where
  taken := hbc.taken.trans hab.taken
  storage := hbc.storage.trans hab.storage
  frames := by
    rcases hbc.frames with heq | hready
    · rw [heq]
      exact hab.frames
    · rcases hab.frames with heq | hready'
      · exact Or.inr ⟨heq ▸ hready.1, hready.2⟩
      · exact Or.inr ⟨hready'.1, hready.2⟩
  heap := by
    rcases hbc.heap with heq | hready
    · rw [heq]
      exact hab.heap
    · rcases hab.heap with heq | hready'
      · exact Or.inr ⟨heq ▸ hready.1, hready.2⟩
      · exact Or.inr ⟨hready'.1, hready.2⟩

theorem respects_framesCell (f : OnceCell FramePool → α) :
    (within framesCell (inspect f) : Program LockName Kernel α).Respects Settled := by
  refine (respects_inspect f).within fun k cell rebuild cell' hfocus heq => ?_
  cases hfocus
  subst heq
  exact .refl k

theorem respects_heapCell (f : OnceCell Heap → α) :
    (within heapCell (inspect f) : Program LockName Kernel α).Respects Settled := by
  refine (respects_inspect f).within fun k cell rebuild cell' hfocus heq => ?_
  cases hfocus
  subst heq
  exact .refl k

theorem respects_interruptFlag (program : Program LockName Bool α) :
    (within interruptFlag program).Respects Settled := by
  refine (respects_true program).within fun k flag rebuild flag' hfocus _ => ?_
  cases hfocus
  exact ⟨rfl, rfl, Or.inl rfl, Or.inl rfl⟩

theorem respects_framesPart (program : Program LockName FramePool α) :
    (within framesPart program).Respects Settled := by
  refine (respects_true program).within fun k pool rebuild pool' hfocus _ => ?_
  cases hframes : k.frames <;> simp only [framesPart, hframes, reduceCtorEq] at hfocus
  cases hfocus
  exact ⟨rfl, rfl, Or.inr ⟨by rw [hframes]; rfl, rfl⟩, Or.inl rfl⟩

theorem respects_arenaPart (program : Program LockName Arena α) :
    (within arenaPart program).Respects Settled := by
  refine (respects_true program).within fun k arena rebuild arena' hfocus _ => ?_
  cases hframes : k.frames <;> cases hheap : k.heap <;>
    simp only [arenaPart, hframes, hheap, reduceCtorEq] at hfocus
  cases hfocus
  exact ⟨rfl, rfl, Or.inr ⟨by rw [hframes]; rfl, rfl⟩, Or.inr ⟨by rw [hheap]; rfl, rfl⟩⟩

theorem respects_createGuard :
    (Interrupts.createGuard interruptFlag : Program LockName Kernel MaskGuard).Respects
      Settled := by
  refine (respects_interruptFlag _).bind fun enabled => ?_
  split
  · exact (respects_interruptFlag _).bind fun _ => trivial
  · exact trivial

theorem respects_dropGuard (guard : MaskGuard) :
    (Interrupts.dropGuard interruptFlag guard : Program LockName Kernel Unit).Respects
      Settled := by
  rw [Interrupts.dropGuard]
  split
  · exact respects_interruptFlag _
  · exact trivial

theorem respects_masked {body : Program LockName Kernel α} (h : body.Respects Settled) :
    (Interrupts.masked interruptFlag body).Respects Settled :=
  respects_createGuard.bind fun guard => h.ensuring (respects_dropGuard guard)

theorem respects_onFrames (body : Program LockName FramePool α) :
    (onFrames body).Respects Settled := by
  refine (respects_framesCell _).bind fun ready => ?_
  split
  · exact respects_masked (respects_framesPart body)
  · exact trivial

theorem respects_onHeap (body : Program LockName Arena α) : (onHeap body).Respects Settled := by
  refine (respects_heapCell _).bind fun ready => ?_
  split
  · exact respects_masked (respects_arenaPart body)
  · exact trivial

theorem respects_pointerOrNone
    {body : Program LockName Kernel (Option VirtAddr)} (h : body.Respects Settled) :
    (pointerOrNone body).Respects Settled := by
  refine h.outcome.bind fun result => ?_
  split <;> exact trivial

/-! ## Entry points -/

/-- A call of an entry point other than initialisation and those that take a
closure. -/
inductive Entry where
  | totalMemory
  | leaseFrames (count : ℕ)
  | giveBackFrames (pa : PhysAddr) (count : ℕ)
  | reserveFrames (pa : PhysAddr) (count : ℕ)
  | frameUsage
  | heapUsage
  | alloc (size : UInt64)
  | free (pa : PhysAddr)
  | allocPointer (size : UInt64)
  | freePointer (pointer : VirtAddr)
  | allocLayout (layout : Layout)
  | dealloc (pointer : VirtAddr)

namespace Entry

def Answer : Entry → Type
  | .totalMemory => UInt64
  | .leaseFrames _ | .alloc _ => PhysAddr
  | .frameUsage => FrameUsage
  | .heapUsage => HeapUsage
  | .allocPointer _ | .allocLayout _ => Option VirtAddr
  | .giveBackFrames .. | .reserveFrames .. | .free _ | .freePointer _ | .dealloc _ => Unit

def program : (entry : Entry) → Program LockName Kernel entry.Answer
  | .totalMemory => Kernel.totalMemory
  | .leaseFrames count => Kernel.leaseFrames count
  | .giveBackFrames pa count => Kernel.giveBackFrames pa count
  | .reserveFrames pa count => Kernel.reserveFrames pa count
  | .frameUsage => Kernel.frameUsage
  | .heapUsage => Kernel.heapUsage
  | .alloc size => Kernel.alloc size
  | .free pa => Kernel.free pa
  | .allocPointer size => Kernel.allocPointer size
  | .freePointer pointer => Kernel.freePointer pointer
  | .allocLayout layout => blockAllocator.alloc layout
  | .dealloc pointer => blockAllocator.dealloc pointer

/-- What an entry point answers while there are no allocators: there is no
pointer to give, taking the null pointer back does nothing, as does taking back
a block of a collection, and all else is refused. -/
def unready : (entry : Entry) → Result entry.Answer
  | .totalMemory => .refuse .notInitialized
  | .leaseFrames _ => .refuse .notInitialized
  | .giveBackFrames .. => .refuse .notInitialized
  | .reserveFrames .. => .refuse .notInitialized
  | .frameUsage => .refuse .notInitialized
  | .heapUsage => .refuse .notInitialized
  | .alloc _ => .refuse .notInitialized
  | .free _ => .refuse .notInitialized
  | .allocPointer _ => .ok none
  | .freePointer pointer => if pointer.isNull then .ok () else .refuse .notInitialized
  | .allocLayout _ => .ok none
  | .dealloc _ => .ok ()

theorem respects (entry : Entry) : entry.program.Respects Settled := by
  cases entry with
  | totalMemory =>
      refine (respects_framesCell _).bind fun pool => ?_
      split <;> exact trivial
  | leaseFrames count => exact respects_onFrames _
  | giveBackFrames pa count => exact respects_onFrames _
  | reserveFrames pa count => exact respects_onFrames _
  | frameUsage => exact respects_onFrames _
  | heapUsage => exact respects_onHeap _
  | alloc size => exact respects_onHeap _
  | free pa => exact respects_onHeap _
  | allocPointer size => exact respects_pointerOrNone (respects_onHeap _)
  | freePointer pointer =>
      change (Kernel.freePointer pointer).Respects Settled
      rw [Kernel.freePointer]
      split
      · exact trivial
      · exact respects_onHeap _
  | allocLayout layout => exact respects_pointerOrNone (respects_onHeap _)
  | dealloc pointer => exact (respects_onHeap _).outcome.bind fun _ => trivial

end Entry

/-! ## Runs without allocators -/

variable {m : Machine LockName Kernel}

theorem withFrames_run_of_empty
    (h : m.state.frames = .empty) (body : Program LockName Kernel α) :
    (withFrames body).run m = some (.refuse .notInitialized, m) := by
  obtain ⟨locks, log, interrupts, taken, storage, frames, heap, memory⟩ := m
  cases h
  rfl

theorem withHeap_run_of_empty
    (h : m.state.heap = .empty) (body : Program LockName Kernel α) :
    (withHeap body).run m = some (.refuse .notInitialized, m) := by
  obtain ⟨locks, log, interrupts, taken, storage, frames, heap, memory⟩ := m
  cases h
  rfl

theorem Entry.run_of_empty
    (hframes : m.state.frames = .empty) (hheap : m.state.heap = .empty) (entry : Entry) :
    entry.program.run m = some (entry.unready, m) := by
  obtain ⟨locks, log, interrupts, taken, storage, frames, heap, memory⟩ := m
  cases hframes
  cases hheap
  cases entry with
  | freePointer pointer =>
      change (Kernel.freePointer pointer).run _ = _
      rw [Kernel.freePointer, unready]
      split
      · rfl
      · rfl
  | _ => rfl

/-! ## Initialisation -/

theorem setUp_run_of_tooLarge
    {totalMemory : UInt64} (h : Parameters.maxPhysicalMemory < totalMemory) (base : PhysAddr) :
    (setUp base totalMemory).run m =
      some (.refuse (.invalidArgument .memoryTooLarge), m) := by
  rw [setUp, if_pos h]
  rfl

theorem setUp_run_of_taken
    {totalMemory : UInt64} (hle : totalMemory ≤ Parameters.maxPhysicalMemory)
    (htaken : m.state.bitmapTaken = true) (base : PhysAddr) :
    (setUp base totalMemory).run m = some (.refuse .alreadyInitialized, m) := by
  obtain ⟨locks, log, interrupts, taken, storage, frames, heap, memory⟩ := m
  cases htaken
  rw [setUp, if_neg (UInt64.not_lt.2 hle)]
  rfl

/-- A range that cannot be managed is refused, and the bitmap is given back. -/
theorem setUp_run_of_refused
    {base : PhysAddr} {totalMemory : UInt64} {why : Misuse}
    (hle : totalMemory ≤ Parameters.maxPhysicalMemory) (htaken : m.state.bitmapTaken = false)
    (hcreate : FramePool.create base totalMemory m.state.bitmapStorage =
      .refuse (.invalidArgument why)) :
    (setUp base totalMemory).run m = some (.refuse (.invalidArgument why), m) := by
  obtain ⟨locks, log, interrupts, taken, storage, frames, heap, memory⟩ := m
  cases htaken
  have hpool : (FramePool.setUp base totalMemory storage : Program LockName Kernel FramePool) =
      .done (.refuse (.invalidArgument why)) := by
    rw [FramePool.setUp]
    change (Program.done (FramePool.create base totalMemory storage)).bind _ = _
    rw [hcreate]
    rfl
  rw [setUp, if_neg (UInt64.not_lt.2 hle)]
  change (((FramePool.setUp base totalMemory storage).outcome).bind _).run _ = _
  rw [hpool]
  rfl

/-- The static bitmap can track all memory that is not too large. -/
theorem usable_iff
    {base : PhysAddr} {totalMemory : UInt64}
    (hle : totalMemory ≤ Parameters.maxPhysicalMemory) :
    FramePool.Usable base totalMemory (Bytes.replicate Parameters.maxFrameBitmapBytes 0) ↔
      4096 ∣ base.val.toNat ∧ base.val.toNat + totalMemory.toNat < 2 ^ 64 ∧
        4096 ≤ totalMemory.toNat := by
  rw [FramePool.usable_iff, Bytes.size_replicate]
  constructor
  · rintro ⟨haligned, hspace, hframe, -⟩
    exact ⟨haligned, hspace, hframe⟩
  · rintro ⟨haligned, hspace, hframe⟩
    exact ⟨haligned, hspace, hframe, FramePool.bitmapBytesFor_le_max hle⟩

/-! ## Processes -/

/-- What a closure has been handed. -/
inductive Allocator where
  | frames
  | heap

def Allocator.isReady : Allocator → Kernel → Bool
  | .frames, k => k.frames.isReady
  | .heap, k => k.heap.isReady

/-- A closure that has not ended. -/
structure Closure where
  allocator : Allocator
  guard : MaskGuard

/-- A process between two calls, or at a moment inside a closure. -/
structure Process where
  machine : Machine LockName Kernel
  /-- How the calls of initialisation ended, the last one first. -/
  attempts : List (Result Unit)
  /-- The closures that have not ended, the innermost first. -/
  closures : List Closure

namespace Process

def fresh (kind : LockKind) (memory : Memory) : Process where
  machine := .fresh kind (Kernel.boot memory)
  attempts := []
  closures := []

/-- Some call of initialisation has succeeded. -/
def Succeeded (p : Process) : Prop := .ok () ∈ p.attempts

inductive Step (p : Process) : Process → Prop
  | setUp {base : PhysAddr} {totalMemory : UInt64} {result : Result Unit}
      {machine : Machine LockName Kernel}
      (run : (Kernel.setUp base totalMemory).run p.machine = some (result, machine)) :
      Step p { p with machine, attempts := result :: p.attempts }
  | call {entry : Entry} {result : Result entry.Answer} {machine : Machine LockName Kernel}
      (run : entry.program.run p.machine = some (result, machine)) : Step p { p with machine }
  /-- A closure begins, under a guard. -/
  | enter {allocator : Allocator} {guard : MaskGuard} {machine : Machine LockName Kernel}
      (ready : allocator.isReady p.machine.state = true)
      (run : (Interrupts.createGuard interruptFlag).run p.machine = some (.ok guard, machine)) :
      Step p { p with machine, closures := ⟨allocator, guard⟩ :: p.closures }
  /-- The innermost closure ends, whether it delivers or gives up. -/
  | leave {closure : Closure} {closures : List Closure} {machine : Machine LockName Kernel}
      (inside : p.closures = closure :: closures)
      (run : (Interrupts.dropGuard interruptFlag closure.guard).run p.machine =
        some (.ok (), machine)) :
      Step p { p with machine, closures }
  /-- A closure works on the frame pool that it has been handed, in any way. -/
  | onFrames {Answer : Type} {program : Program LockName FramePool Answer}
      {result : Result Answer} {machine : Machine LockName Kernel}
      (handed : ∃ closure ∈ p.closures, closure.allocator = .frames)
      (run : (within framesPart program).run p.machine = some (result, machine)) :
      Step p { p with machine }
  /-- A closure works on the heap that it has been handed, in any way. -/
  | onHeap {Answer : Type} {program : Program LockName Arena Answer}
      {result : Result Answer} {machine : Machine LockName Kernel}
      (handed : ∃ closure ∈ p.closures, closure.allocator = .heap)
      (run : (within arenaPart program).run p.machine = some (result, machine)) :
      Step p { p with machine }
  /-- The callers' own code stores to memory, masks or unmasks interrupts and
  writes to the log. -/
  | own {interrupts : Bool} {memory : Memory} {log : Array Event} :
      Step p { p with machine :=
        { p.machine with
          log
          state := { p.machine.state with interrupts, memory } } }

inductive Reachable : Process → Prop
  | fresh (kind : LockKind) (memory : Memory) : Reachable (fresh kind memory)
  | step {p p' : Process} (h : Reachable p) (step : p.Step p') : Reachable p'

/-! ## The three records -/

variable {p p' : Process}

/-- The flag and both cells agree on whether initialisation has succeeded, and
nobody has written to the static bitmap's initial content. -/
structure Staged (p : Process) : Prop where
  storage : p.machine.state.bitmapStorage = Bytes.replicate Parameters.maxFrameBitmapBytes 0
  before : ¬ p.Succeeded → p.machine.state.bitmapTaken = false ∧
    p.machine.state.frames = .empty ∧ p.machine.state.heap = .empty
  after : p.Succeeded → p.machine.state.bitmapTaken = true ∧
    p.machine.state.frames.isReady = true ∧ p.machine.state.heap.isReady = true

theorem staged_fresh (kind : LockKind) (memory : Memory) : (fresh kind memory).Staged where
  storage := by rw [fresh, Machine.fresh, Kernel.boot]
  before _ := ⟨rfl, rfl, rfl⟩
  after h := absurd h List.not_mem_nil

theorem Staged.of_settled
    {machine : Machine LockName Kernel} {closures : List Closure} (h : p.Staged)
    (hsettled : p.machine.state.Settled machine.state) :
    ({ p with machine, closures } : Process).Staged where
  storage := hsettled.storage.trans h.storage
  before hnone := by
    obtain ⟨htaken, hframes, hheap⟩ := h.before hnone
    refine ⟨hsettled.taken.trans htaken, ?_, ?_⟩
    · rcases hsettled.frames with heq | ⟨hready, -⟩
      · exact heq.trans hframes
      · rw [hframes] at hready
        cases hready
    · rcases hsettled.heap with heq | ⟨hready, -⟩
      · exact heq.trans hheap
      · rw [hheap] at hready
        cases hready
  after hsucceeded := by
    obtain ⟨htaken, hframes, hheap⟩ := h.after hsucceeded
    refine ⟨hsettled.taken.trans htaken, ?_, ?_⟩
    · rcases hsettled.frames with heq | ⟨-, hready⟩
      · exact heq ▸ hframes
      · exact hready
    · rcases hsettled.heap with heq | ⟨-, hready⟩
      · exact heq ▸ hheap
      · exact hready

theorem Staged.of_run
    {α : Type} {program : Program LockName Kernel α} {result : Result α}
    {machine : Machine LockName Kernel} {closures : List Closure} (h : p.Staged)
    (hprogram : program.Respects Settled) (hrun : program.run p.machine = some (result, machine)) :
    ({ p with machine, closures } : Process).Staged :=
  h.of_settled (hprogram.of_run Settled.refl (fun _ _ _ => Settled.trans) hrun)

theorem Staged.setUp_cases (h : p.Staged) (base : PhysAddr) (totalMemory : UInt64) :
    (Parameters.maxPhysicalMemory < totalMemory ∧ (setUp base totalMemory).run p.machine =
      some (.refuse (.invalidArgument .memoryTooLarge), p.machine)) ∨
    (totalMemory ≤ Parameters.maxPhysicalMemory ∧ p.Succeeded ∧
      (setUp base totalMemory).run p.machine = some (.refuse .alreadyInitialized, p.machine)) ∨
    (totalMemory ≤ Parameters.maxPhysicalMemory ∧ ¬ p.Succeeded ∧
      ¬ FramePool.Usable base totalMemory (Bytes.replicate Parameters.maxFrameBitmapBytes 0) ∧
      ∃ why, (setUp base totalMemory).run p.machine =
        some (.refuse (.invalidArgument why), p.machine)) ∨
    (totalMemory ≤ Parameters.maxPhysicalMemory ∧ ¬ p.Succeeded ∧
      FramePool.Usable base totalMemory (Bytes.replicate Parameters.maxFrameBitmapBytes 0) ∧
      ∃ pool machine, FramePool.create base totalMemory
          (Bytes.replicate Parameters.maxFrameBitmapBytes 0) = .ok pool ∧
        (setUp base totalMemory).run p.machine = some (.ok (), machine) ∧
        machine.state = { p.machine.state with
          bitmapTaken := true
          frames := .ready pool
          heap := .ready (Heap.empty .higherHalf) }) := by
  by_cases hle : totalMemory ≤ Parameters.maxPhysicalMemory
  swap
  · have hlt := UInt64.not_le.1 hle
    exact Or.inl ⟨hlt, setUp_run_of_tooLarge hlt base⟩
  by_cases hsucceeded : p.Succeeded
  · obtain ⟨htaken, -⟩ := h.after hsucceeded
    exact Or.inr (Or.inl ⟨hle, hsucceeded, setUp_run_of_taken hle htaken base⟩)
  obtain ⟨htaken, hframes, hheap⟩ := h.before hsucceeded
  rcases FramePool.create_cases base totalMemory
      (Bytes.replicate Parameters.maxFrameBitmapBytes 0) with
    ⟨husable, pool, hcreate, -⟩ | ⟨hnot, why, hcreate⟩
  · have hcreate' := hcreate
    rw [← h.storage] at hcreate'
    obtain ⟨machine, hrun, -, hstate⟩ :=
      (Core.yields_setUp hle htaken hframes hheap hcreate' p.machine.locks).exists_run
    exact Or.inr (Or.inr (Or.inr ⟨hle, hsucceeded, husable, pool, machine, hcreate, hrun, hstate⟩))
  · rw [← h.storage] at hcreate
    exact Or.inr (Or.inr (Or.inl
      ⟨hle, hsucceeded, hnot, why, setUp_run_of_refused hle htaken hcreate⟩))

/-- An initialisation that fails changes nothing. -/
theorem Staged.of_failed
    {result : Result Unit} (h : p.Staged) (hresult : result ≠ .ok ()) :
    ({ p with attempts := result :: p.attempts } : Process).Staged := by
  have hiff : Succeeded { p with attempts := result :: p.attempts } ↔ p.Succeeded := by
    rw [Succeeded, List.mem_cons, or_iff_right hresult.symm, Succeeded]
  exact ⟨h.storage, fun hnone => h.before (hiff.not.1 hnone), fun hsome => h.after (hiff.1 hsome)⟩

/-- One step keeps the records in step with each other. -/
theorem Staged.step (h : p.Staged) (hstep : p.Step p') : p'.Staged := by
  cases hstep with
  | @setUp base totalMemory result machine run =>
      rcases h.setUp_cases base totalMemory with
        ⟨-, hrun⟩ | ⟨-, -, hrun⟩ | ⟨-, -, -, why, hrun⟩ | ⟨-, -, -, pool, machine', -, hrun, hstate⟩
      · rw [hrun] at run
        cases run
        exact h.of_failed nofun
      · rw [hrun] at run
        cases run
        exact h.of_failed nofun
      · rw [hrun] at run
        cases run
        exact h.of_failed nofun
      · rw [hrun] at run
        cases run
        refine ⟨?_, fun hnone => absurd List.mem_cons_self hnone, fun _ => ?_⟩
        · change machine.state.bitmapStorage = _
          rw [hstate]
          exact h.storage
        · change machine.state.bitmapTaken = true ∧ machine.state.frames.isReady = true ∧
            machine.state.heap.isReady = true
          rw [hstate]
          exact ⟨rfl, rfl, rfl⟩
  | @call entry result machine run => exact h.of_run entry.respects run
  | enter ready run => exact h.of_run respects_createGuard run
  | leave inside run => exact h.of_run (respects_dropGuard _) run
  | onFrames handed run => exact h.of_run (respects_framesPart _) run
  | onHeap handed run => exact h.of_run (respects_arenaPart _) run
  | own => exact h.of_settled ⟨rfl, rfl, Or.inl rfl, Or.inl rfl⟩

theorem Reachable.staged (h : Reachable p) : p.Staged := by
  induction h with
  | fresh kind memory => exact staged_fresh kind memory
  | step _ step ih => exact ih.step step

/-- The first call of a process asks for too much memory, and the second one
succeeds. -/
theorem exists_succeeded :
    ∃ p p' : Process, Reachable p ∧
      p.attempts = [.refuse (.invalidArgument .memoryTooLarge)] ∧ ¬ p.Succeeded ∧
      p.Step p' ∧ p'.Succeeded := by
  let memory : Memory := .filled ⟨0x100000⟩ 0 0
  have hlarge : Parameters.maxPhysicalMemory < Parameters.maxPhysicalMemory + 1 := by decide
  let p : Process := { fresh .spin memory with
    attempts := [.refuse (.invalidArgument .memoryTooLarge)] }
  have hp : Reachable p :=
    (Reachable.fresh .spin memory).step (.setUp (setUp_run_of_tooLarge hlarge ⟨0x100000⟩))
  have hnone : ¬ p.Succeeded := fun h => nomatch List.mem_singleton.1 h
  rcases hp.staged.setUp_cases ⟨0x100000⟩ 0x20000 with
    ⟨hlt, -⟩ | ⟨-, hsucceeded, -⟩ | ⟨hle, -, hnot, -⟩ | ⟨-, -, -, -, machine, -, hrun, -⟩
  · exact absurd hlt (by decide)
  · exact absurd hsucceeded hnone
  · exact absurd ((usable_iff hle).2 (by decide)) hnot
  · exact ⟨p, _, hp, rfl, hnone, .setUp hrun, List.mem_cons_self⟩

/-! ## Initialisation in every run -/

/-- At every moment of every run, initialisation ends.  It succeeds exactly if
it never has and the range can be managed, and then makes the allocators that
it makes in a fresh process; otherwise it changes nothing at all.  Until it has
succeeded all other calls answer that there are no allocators, and once it has
there are both, which no later initialisation changes. -/
theorem Reachable.initialised_once (h : Reachable p) :
    (∀ base totalMemory, ∃ result machine,
      (setUp base totalMemory).run p.machine = some (result, machine) ∧
      (result = .ok () ↔ ¬ p.Succeeded ∧ totalMemory ≤ Parameters.maxPhysicalMemory ∧
        4096 ∣ base.val.toNat ∧ base.val.toNat + totalMemory.toNat < 2 ^ 64 ∧
        4096 ≤ totalMemory.toNat) ∧
      (result = .ok () → ∃ pool, FramePool.create base totalMemory
          (Bytes.replicate Parameters.maxFrameBitmapBytes 0) = .ok pool ∧
        machine.state = { p.machine.state with
          bitmapTaken := true
          frames := .ready pool
          heap := .ready (Heap.empty .higherHalf) }) ∧
      (result ≠ .ok () → machine = p.machine)) ∧
    (¬ p.Succeeded →
      (∀ entry : Entry, entry.program.run p.machine = some (entry.unready, p.machine)) ∧
      ∀ (α : Type) (body : Program LockName Kernel α),
        (withFrames body).run p.machine = some (.refuse .notInitialized, p.machine) ∧
        (withHeap body).run p.machine = some (.refuse .notInitialized, p.machine)) ∧
    (p.Succeeded →
      (∃ pool heap, p.machine.state.frames = .ready pool ∧ p.machine.state.heap = .ready heap) ∧
      ∀ base totalMemory result machine,
        (setUp base totalMemory).run p.machine = some (result, machine) →
        machine = p.machine) := by
  have hstaged := h.staged
  refine ⟨fun base totalMemory => ?_, fun hnone => ?_, fun hsucceeded => ⟨?_, ?_⟩⟩
  · rcases hstaged.setUp_cases base totalMemory with
      ⟨hlt, hrun⟩ | ⟨-, hsucceeded, hrun⟩ | ⟨hle, -, hnot, why, hrun⟩ |
      ⟨hle, hnone, husable, pool, machine, hcreate, hrun, hstate⟩
    · refine ⟨_, _, hrun, iff_of_false nofun fun hall => ?_, nofun, fun _ => rfl⟩
      exact absurd hall.2.1 (UInt64.not_le.2 hlt)
    · refine ⟨_, _, hrun, iff_of_false nofun fun hall => ?_, nofun, fun _ => rfl⟩
      exact hall.1 hsucceeded
    · refine ⟨_, _, hrun, iff_of_false nofun fun hall => ?_, nofun, fun _ => rfl⟩
      exact hnot ((usable_iff hle).2 hall.2.2)
    · refine ⟨_, _, hrun, iff_of_true rfl ?_, fun _ => ⟨pool, hcreate, hstate⟩,
        fun hne => absurd rfl hne⟩
      exact ⟨hnone, hle, (usable_iff hle).1 husable⟩
  · obtain ⟨-, hframes, hheap⟩ := hstaged.before hnone
    exact ⟨Entry.run_of_empty hframes hheap, fun α body =>
      ⟨withFrames_run_of_empty hframes body, withHeap_run_of_empty hheap body⟩⟩
  · obtain ⟨-, hframes, hheap⟩ := hstaged.after hsucceeded
    obtain ⟨pool, hpool⟩ := OnceCell.isReady_iff.1 hframes
    obtain ⟨heap, hheap⟩ := OnceCell.isReady_iff.1 hheap
    exact ⟨pool, heap, hpool, hheap⟩
  · intro base totalMemory result machine run
    rcases hstaged.setUp_cases base totalMemory with
      ⟨-, hrun⟩ | ⟨-, -, hrun⟩ | ⟨-, hnone, -⟩ | ⟨-, hnone, -⟩
    · rw [hrun] at run
      cases run
      rfl
    · rw [hrun] at run
      cases run
      rfl
    · exact absurd hsucceeded hnone
    · exact absurd hsucceeded hnone

/-- A process after a failed initialisation is as good as new; after the next
one has succeeded, a third changes nothing. -/
theorem exists_retried :
    ∃ (p p' : Process) (machine : Machine LockName Kernel),
      Reachable p ∧ p.attempts = [.refuse (.invalidArgument .memoryTooLarge)] ∧
      (alloc 16).run p.machine = some (.refuse .notInitialized, p.machine) ∧
      (setUp ⟨0x100000⟩ 0x20000).run p.machine = some (.ok (), machine) ∧
      p.Step p' ∧ p'.Succeeded ∧
      ∀ result machine', (setUp ⟨0x100000⟩ 0x20000).run p'.machine = some (result, machine') →
        machine' = p'.machine := by
  obtain ⟨p, p', hp, hattempts, hnone, hstep, hsucceeded⟩ := exists_succeeded
  obtain ⟨hsetUp, hbefore, -⟩ := hp.initialised_once
  obtain ⟨-, -, hafter⟩ := (hp.step hstep).initialised_once
  obtain ⟨result, machine, hrun, hiff, -⟩ := hsetUp ⟨0x100000⟩ 0x20000
  have hok : result = .ok () := hiff.2 ⟨hnone, by decide⟩
  subst hok
  exact ⟨p, p', machine, hp, hattempts, (hbefore hnone).1 (.alloc 16), hrun, hstep, hsucceeded,
    (hafter hsucceeded).2 ⟨0x100000⟩ 0x20000⟩

/-- Once initialisation has succeeded it is always refused and changes nothing.
How it is refused depends on the size alone: the check for too much memory comes
first. -/
theorem Reachable.setUp_of_succeeded
    (h : Reachable p) (hsucceeded : p.Succeeded) (base : PhysAddr) (totalMemory : UInt64) :
    (setUp base totalMemory).run p.machine =
      some (.refuse (if Parameters.maxPhysicalMemory < totalMemory then
        .invalidArgument .memoryTooLarge else .alreadyInitialized), p.machine) := by
  rcases h.staged.setUp_cases base totalMemory with
    ⟨hlt, hrun⟩ | ⟨hle, -, hrun⟩ | ⟨-, hnone, -⟩ | ⟨-, hnone, -⟩
  · rw [hrun, if_pos hlt]
  · rw [hrun, if_neg (UInt64.not_lt.2 hle)]
  · exact absurd hsucceeded hnone
  · exact absurd hsucceeded hnone

/-- The two ways to refuse an initialisation that comes too late. -/
theorem exists_refused_late :
    ∃ p : Process, Reachable p ∧ p.Succeeded ∧
      (setUp ⟨0x100000⟩ 0x20000).run p.machine = some (.refuse .alreadyInitialized, p.machine) ∧
      (setUp ⟨0x100000⟩ 0x1000000001).run p.machine =
        some (.refuse (.invalidArgument .memoryTooLarge), p.machine) := by
  obtain ⟨p, p', hp, -, -, hstep, hsucceeded⟩ := exists_succeeded
  have hp' := hp.step hstep
  exact ⟨p', hp', hsucceeded, hp'.setUp_of_succeeded hsucceeded ⟨0x100000⟩ 0x20000,
    hp'.setUp_of_succeeded hsucceeded ⟨0x100000⟩ 0x1000000001⟩

/-- Not every initialisation that comes too late is told so. -/
theorem not_always_alreadyInitialized :
    ¬ ∀ p : Process, Reachable p → p.Succeeded → ∀ base totalMemory, ∃ machine,
      (setUp base totalMemory).run p.machine = some (.refuse .alreadyInitialized, machine) := by
  intro hall
  obtain ⟨p, p', hp, -, -, hstep, hsucceeded⟩ := exists_succeeded
  obtain ⟨machine, hrun⟩ := hall p' (hp.step hstep) hsucceeded ⟨0x100000⟩ 0x1000000001
  have hlarge : Parameters.maxPhysicalMemory < 0x1000000001 := by decide
  rw [setUp_run_of_tooLarge hlarge] at hrun
  cases hrun

end Process

end Kernel

end KernelMemory
