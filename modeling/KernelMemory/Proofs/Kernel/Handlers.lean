import KernelMemory.Proofs.Kernel.EntryPoints
import KernelMemory.Proofs.World.Boot

/-!
# Interrupt handlers

The runs of one processor.  Its code calls the entry points one after the
other; wherever interrupts are enabled, inside a call or between two, a handler
may come, which is code of the same kind that starts with interrupts masked.
Handlers nest to any depth, because a handler may enable interrupts again.

The main statement is `Core.Reachable.masked_unblocked_restored`: while a lock is
held interrupts are masked, so nobody waits for a lock of the code that they
interrupted; and every call ends with the flag as it found it and with all locks
free.
-/

namespace KernelMemory

open OnceCell Program Kernel

/-- A call on its way: whether interrupts were enabled when it began, and what
is left of it. -/
structure Running where
  enabled : Bool
  {Answer : Type}
  program : Program LockName Kernel Answer

/-- A processor: its machine, the call that its code is in, and the same for
the code that has been interrupted, the latest first. -/
structure Core where
  machine : Machine LockName Kernel
  current : Option Running
  interrupted : List (Option Running)

namespace Core

def boot (kind : LockKind) (memory : Memory) : Core where
  machine := .fresh kind (Kernel.boot memory)
  current := none
  interrupted := []

inductive Step (c : Core) : Core → Prop
  | call {Answer : Type} {program : Program LockName Kernel Answer} (idle : c.current = none)
      (code : Code .call .none program) :
      Step c { c with current := some ⟨c.machine.state.interrupts, program⟩ }
  | advance {enabled : Bool} {Answer : Type} {program rest : Program LockName Kernel Answer}
      {machine : Machine LockName Kernel} (here : c.current = some ⟨enabled, program⟩)
      (next : program.advance c.machine = some (rest, machine)) :
      Step c { c with machine, current := some ⟨enabled, rest⟩ }
  | finish {enabled : Bool} {Answer : Type} {result : Result Answer}
      (here : c.current = some ⟨enabled, .done result⟩) : Step c { c with current := none }
  /-- Between calls code does anything that leaves the cells alone. -/
  | outside {state : Kernel} {log : Array Event} (idle : c.current = none)
      (frames : state.frames = c.machine.state.frames) (heap : state.heap = c.machine.state.heap) :
      Step c { c with machine := { c.machine with state, log } }
  /-- A handler comes, with interrupts masked. -/
  | interrupt (enabled : c.machine.state.interrupts = true) :
      Step c {
        machine := { c.machine with state := { c.machine.state with interrupts := false } }
        current := none
        interrupted := c.current :: c.interrupted }
  /-- A handler that left interrupts masked returns. -/
  | resume {current : Option Running} {rest : List (Option Running)} (idle : c.current = none)
      (masked : c.machine.state.interrupts = false) (here : c.interrupted = current :: rest) :
      Step c {
        machine := { c.machine with state := { c.machine.state with interrupts := true } }
        current
        interrupted := rest }

inductive Reachable : Core → Prop
  | boot (kind : LockKind) (memory : Memory) : Reachable (boot kind memory)
  | step {c c' : Core} (h : Reachable c) (step : c.Step c') : Reachable c'

/-! ## What a step preserves -/

/-- What some code knows suffices for the rest of its call. -/
def Fits (own : Context) : Option Running → Prop
  | none => own.held = []
  | some running => Keeps masking own running.program fun _ own' =>
      own'.enabled = running.enabled ∧ own'.held = []

/-- The discipline is kept, by the code that runs and by all that has been
interrupted. -/
def Orderly (c : Core) : Prop :=
  ∃ own suspended, Tended own suspended c.machine.locks c.machine.state ∧ Fits own c.current ∧
    List.Forall₂ Fits suspended c.interrupted

variable {c c' : Core}

theorem orderly_boot (kind : LockKind) (memory : Memory) : (boot kind memory).Orderly := by
  refine ⟨⟨true, [], .unknown, .unknown⟩, [], ?_, rfl, .nil⟩
  exact {
    enabled := rfl
    held := rfl
    masked := fun _ => rfl
    interrupted := nofun
    order := nofun
    frames := .of_unknown trivial nofun
    heap := .of_unknown trivial nofun }

theorem Orderly.step (h : c.Orderly) (hstep : c.Step c') : c'.Orderly := by
  obtain ⟨own, suspended, hinv, hfits, hothers⟩ := h
  cases hstep with
  | @call Answer program idle code =>
      have hheld : own.held = [] := by simpa [Fits, idle] using hfits
      refine ⟨own, suspended, hinv, ?_, hothers⟩
      refine (code.keeps hheld ⟨nofun, nofun⟩ nofun).mono fun _ own' hkept => ?_
      exact ⟨hkept.enabled.trans hinv.enabled.symm, hkept.held.trans hheld⟩
  | advance here next =>
      rw [here] at hfits
      obtain ⟨own', hinv', hrest⟩ := Keeps.advance hfits hinv next
      exact ⟨own', suspended, hinv', hrest, hothers⟩
  | finish here =>
      rw [here] at hfits
      exact ⟨own, suspended, hinv, hfits.2, hothers⟩
  | @outside state log idle frames heap =>
      have hheld : own.held = [] := by simpa [Fits, idle] using hfits
      refine ⟨{ own with enabled := state.interrupts }, suspended, ?_, ?_, hothers⟩
      · have hcells : Tended { own with enabled := state.interrupts } suspended c.machine.locks
            { c.machine.state with interrupts := state.interrupts } :=
          { hinv with enabled := rfl, masked := fun _ => hheld }
        exact hcells.congr rfl frames heap
      · simpa [Fits, idle] using hheld
  | interrupt enabled =>
      have hon : own.enabled = true := hinv.enabled.symm.trans enabled
      refine ⟨⟨false, [], .unknown, .unknown⟩, own :: suspended, ?_, rfl, .cons hfits hothers⟩
      exact {
        enabled := rfl
        held := hinv.held.trans (hinv.masked hon)
        masked := nofun
        interrupted := List.forall_mem_cons.2 ⟨⟨hon, hinv.masked hon⟩, hinv.interrupted⟩
        order := hinv.order
        frames := hinv.frames.cons trivial id
        heap := hinv.heap.cons trivial id }
  | @resume current rest idle masked here =>
      have hheld : own.held = [] := by simpa [Fits, idle] using hfits
      rw [here] at hothers
      cases hothers with
      | @cons other _ others _ hother hrest =>
          obtain ⟨hon, hnone⟩ := hinv.interrupted other List.mem_cons_self
          refine ⟨other, others, ?_, hother, hrest⟩
          exact {
            enabled := hon.symm
            held := hinv.held.trans (hheld.trans hnone.symm)
            masked := fun _ => hnone
            interrupted := fun a ha => hinv.interrupted a (List.mem_cons_of_mem _ ha)
            order := hinv.order
            frames := hinv.frames.tail
            heap := hinv.heap.tail }

theorem Reachable.orderly (h : Reachable c) : c.Orderly := by
  induction h with
  | boot kind memory => exact orderly_boot kind memory
  | step _ step ih => exact ih.step step

/-! ## Safety -/

/-- What masking is there for. -/
structure Safe (c : Core) : Prop where
  /-- Interrupts are masked while a lock is held. -/
  masked : ∀ name, ¬ c.machine.locks.IsFree name → c.machine.state.interrupts = false
  /-- A lock that is asked for is free. -/
  unblocked : ∀ {enabled : Bool} {Answer : Type} {name : LockName}
    {next : Program LockName Kernel Answer},
      c.current = some ⟨enabled, .acquire name next⟩ → c.machine.locks.IsFree name
  /-- While interrupts are enabled, a call that has not ended can go on. -/
  moves : ∀ {enabled : Bool} {Answer : Type} {program : Program LockName Kernel Answer},
    c.current = some ⟨enabled, program⟩ → c.machine.state.interrupts = true →
      program.result?.isSome ∨ (program.advance c.machine).isSome
  /-- A call that has ended leaves the flag as it found it, and no lock held. -/
  restored : ∀ {enabled : Bool} {Answer : Type} {result : Result Answer},
    c.current = some ⟨enabled, .done result⟩ →
      c.machine.state.interrupts = enabled ∧ ∀ name, c.machine.locks.IsFree name

/-- In every state of a run the masking of interrupts does its work. -/
theorem Reachable.masked_unblocked_restored (h : Reachable c) : c.Safe := by
  obtain ⟨own, suspended, hinv, hfits, -⟩ := h.orderly
  have hfree (name : LockName) : c.machine.locks.IsFree name ↔ name ∉ own.held := by
    rw [Locks.IsFree, hinv.held]
  constructor
  case masked =>
    intro name hheld
    rw [hinv.enabled, ← Bool.not_eq_true]
    intro hon
    rw [hfree, hinv.masked hon] at hheld
    exact hheld List.not_mem_nil
  case unblocked =>
    intro enabled Answer name next here
    rw [here] at hfits
    exact (hfree name).2 hfits.1.2
  case moves =>
    intro enabled Answer program here hon
    rw [here] at hfits
    rcases Keeps.progress hfits hinv with
      ⟨result, hdone, -⟩ | ⟨name, next, hnext, hheld, hoff⟩ | hoff | ⟨out, hout⟩
    · have hdone : program = .done result := hdone
      rw [hdone]
      exact Or.inl rfl
    · exact absurd ((hfree name).2 hoff.2) hheld
    · exact absurd (hinv.enabled.symm.trans hon) (hoff ▸ Bool.false_ne_true)
    · exact Or.inr (hout ▸ rfl)
  case restored =>
    intro enabled Answer result here
    rw [here] at hfits
    refine ⟨hinv.enabled.trans hfits.1, fun name => (hfree name).2 ?_⟩
    rw [hfits.2]
    exact List.not_mem_nil

/-! ## A handler that holds a lock -/

theorem Reachable.run
    {enabled : Bool} {Answer : Type} {program : Program LockName Kernel Answer}
    {result : Result Answer} {machine : Machine LockName Kernel} (h : Reachable c)
    (here : c.current = some ⟨enabled, program⟩)
    (hrun : program.run c.machine = some (result, machine)) :
    Reachable { c with machine, current := some ⟨enabled, .done result⟩ } := by
  have hprogram := wellFounded_follows.apply program
  induction hprogram generalizing c with
  | intro program _ ih =>
      rcases advance_of_run hrun with ⟨result', rfl⟩ | ⟨⟨rest, machine'⟩, hadvance⟩
      · cases hrun
        rw [← here]
        exact h
      · have hstepped : Reachable { c with
            machine := machine'
            current := some ⟨enabled, rest⟩ } := h.step (.advance here hadvance)
        have hrest : rest.run machine' = some (result, machine) := run_of_advance hadvance ▸ hrun
        exact (ih rest ⟨_, _, hadvance⟩ hstepped rfl hrest :)

/-- The first initialisation succeeds on every usable range. -/
theorem yields_setUp
    {base : PhysAddr} {totalMemory : UInt64} {pool : FramePool} {k : Kernel}
    (hle : totalMemory ≤ Parameters.maxPhysicalMemory) (htaken : k.bitmapTaken = false)
    (hframes : k.frames = .empty) (hheap : k.heap = .empty)
    (hcreate : FramePool.create base totalMemory k.bitmapStorage = .ok pool)
    (locks : Locks LockName) :
    (Kernel.setUp base totalMemory).Yields locks k (.ok ())
      { k with
        bitmapTaken := true
        frames := .ready pool
        heap := .ready (Heap.empty .higherHalf) } := by
  obtain ⟨interrupts, bitmapTaken, storage, frames, heap, memory⟩ := k
  cases htaken
  cases hframes
  cases hheap
  have htake : takeBitmap.Yields locks ⟨interrupts, false, storage, .empty, .empty, memory⟩
      (.ok false) ⟨interrupts, true, storage, .empty, .empty, memory⟩ :=
    fun log => ⟨log, rfl⟩
  have hpool : (FramePool.setUp base totalMemory storage : Program _ Kernel _).Yields locks
      ⟨interrupts, true, storage, .empty, .empty, memory⟩ (.ok pool)
      ⟨interrupts, true, storage, .empty, .empty, memory⟩ :=
    (yields_ofResult_of_eq hcreate).bind ((yields_report _).bind (yields_pure pool))
  have hset : (OnceCell.set framesCell pool).Yields locks
      ⟨interrupts, true, storage, .empty, .empty, memory⟩ (.ok (.ok pool))
      ⟨interrupts, true, storage, .ready pool, .empty, memory⟩ :=
    fun log => ⟨log, rfl⟩
  have hset' : (OnceCell.set heapCell (Heap.empty .higherHalf)).Yields locks
      ⟨interrupts, true, storage, .ready pool, .empty, memory⟩ (.ok (.ok (Heap.empty .higherHalf)))
      ⟨interrupts, true, storage, .ready pool, .ready (Heap.empty .higherHalf), memory⟩ :=
    fun log => ⟨log, rfl⟩
  rw [Kernel.setUp, if_neg (UInt64.not_lt.2 hle)]
  refine htake.bind ((yields_inspect _).bind (hpool.outcome_ok.bind (hset.bind (hset'.bind ?_))))
  exact yields_report _

/-- A handler holds the heap lock, and the call that it interrupted has not
begun to work. -/
theorem exists_handler_holding_lock :
    ∃ c : Core, Reachable c ∧ ¬ c.machine.locks.IsFree .heap ∧ c.interrupted ≠ [] ∧ c.Safe := by
  let memory : Memory := .filled ⟨0x100000⟩ 0 0
  have husable : FramePool.Usable ⟨0x100000⟩ 0x20000 (Kernel.boot memory).bitmapStorage := by
    refine ⟨by decide, by decide, by decide, ?_⟩
    rw [Kernel.boot, Bytes.size_replicate]
    decide +kernel
  obtain ⟨pool, hcreate, -⟩ := husable.exists_pool
  have hsetUp :=
    yields_setUp (k := Kernel.boot memory) (by decide) rfl rfl rfl hcreate (.free .spin)
  obtain ⟨⟨locks, log, state⟩, hrun, hlocks, hstate⟩ :=
    hsetUp.exists_run (m := Machine.fresh .spin (Kernel.boot memory))
  cases hlocks
  cases hstate
  have hready := (((Reachable.boot .spin memory).step (.call rfl (.setUp _ _))).run rfl hrun).step
    (.finish rfl)
  have hhandler := (hready.step (.call rfl (.alloc 16))).step (.interrupt rfl)
  have hlocked := (((hhandler.step (.call rfl .heapUsage)).step (.advance rfl rfl)).step
    (.advance rfl rfl)).step (.advance rfl rfl)
  exact ⟨_, hlocked, fun hfree => hfree List.mem_cons_self, List.cons_ne_nil _ _,
    hlocked.masked_unblocked_restored⟩

end Core

end KernelMemory
