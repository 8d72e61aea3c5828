import KernelMemory.Proofs.Program.Crew
import KernelMemory.Proofs.World.Locking

/-!
# The order of the allocators' locks

Any number of contexts call one heap and the frame pool under it at the same
time, over any arena.  The heap lock ranks below the frame lock, and every call
takes locks in that order and frees them on every way out, so contexts never
wait for each other in a circle.  The main statement is
`Crew.Reachable.deadlock_free`.
-/

namespace KernelMemory

open Program

/-- The calls of a heap and of the pool under it. -/
def Call.service : Service LockName Arena where
  Op := Call
  Answer := Call.Answer
  program := Call.program

namespace Crew

variable {n : ℕ} {c : Crew Call.service n}

/-- What a context may hold when it takes a lock, who holds the locks, and that
somebody can go on. -/
structure DeadlockFree (c : Crew Call.service n) : Prop where
  /-- No lock is taken inside the frame lock, and none twice. -/
  takes : ∀ i call program name, (c.workers i).task = some ⟨call, program⟩ →
    program.wants? = some name →
    LockName.frames ∉ (c.workers i).held ∧ name ∉ (c.workers i).held
  held : ∀ name, name ∈ c.machine.locks.held ↔ ∃ i, name ∈ (c.workers i).held
  alone : ∀ i j name, name ∈ (c.workers i).held → name ∈ (c.workers j).held → i = j
  progress : (∃ i, (c.workers i).Busy) → ∃ i, c.CanAdvance i
  idle : (∀ i, ¬ (c.workers i).Busy) → ∀ name, c.machine.locks.IsFree name

/-- No lock ranks above the frame lock. -/
theorem rank_le_frames (name : LockName) : name.rank ≤ LockName.frames.rank := by
  cases name with
  | heap => exact Nat.zero_le _
  | frames => exact le_refl _

theorem Ordered.deadlockFree (h : c.Ordered LockName.rank) : c.DeadlockFree where
  takes := by
    intro i call program name htask hwants
    have hprogram := h.bracketed i
    rw [Worker.Bracketed, htask] at hprogram
    have habove := Bracketed.wants_above hprogram hwants
    constructor
    · intro hmem
      exact absurd (habove _ hmem) (Nat.not_lt.2 (rank_le_frames name))
    · intro hmem
      exact lt_irrefl _ (habove _ hmem)
  held := h.holder
  alone := h.unique
  progress := by
    rintro ⟨i, hbusy⟩
    exact h.exists_canAdvance hbusy
  idle := h.isFree

/-- Contexts that call one heap and its pool take the heap lock before the frame
lock and neither twice, some of them can always go on, and they leave both locks
free. -/
theorem Reachable.deadlock_free (h : Reachable c) : c.DeadlockFree :=
  (h.ordered Call.balances).deadlockFree

/-- Of two contexts that ask for the statistics one holds the heap lock and the
other waits for it.  The first can go on. -/
theorem exists_waiting :
    ∃ c : Crew Call.service 2, Reachable c ∧ c.DeadlockFree ∧
      (c.workers 0).held = [LockName.heap] ∧ (c.workers 1).Busy ∧ ¬ c.CanAdvance 1 ∧
      ∃ i, c.CanAdvance i := by
  obtain ⟨pool, -⟩ := FramePool.usable_thirtyTwo.exists_pool
  let arena : Arena := ⟨.filled ⟨0x100000⟩ 0 0, pool, Heap.empty .higherHalf⟩
  let fresh : Crew Call.service 2 := ⟨.fresh .spin arena, fun _ => ⟨none, []⟩⟩
  have hlocks : ∀ name, fresh.machine.locks.IsFree name := Locks.isFree_free .spin
  obtain ⟨next, hstats⟩ : ∃ next, Call.stats.program = .acquire .heap next := ⟨_, rfl⟩
  let waiting : Worker Call.service := ⟨some ⟨Call.stats, .acquire .heap next⟩, []⟩
  let inside : Worker Call.service := ⟨some ⟨Call.stats, next⟩, [.heap]⟩
  let machine := { fresh.machine with locks := fresh.machine.locks.taking .heap }
  let started := fresh.moved 0 waiting fresh.machine
  let first := started.moved 0 inside machine
  let both := first.moved 1 waiting machine
  have hstarted : Reachable started := by
    have hstep : fresh.Step (fresh.moved 0 ⟨some ⟨Call.stats, Call.stats.program⟩, []⟩ _) :=
      .start rfl
    rw [hstats] at hstep
    exact .step (.fresh ⟨hlocks, fun _ => rfl⟩) hstep
  have hfirst : Reachable first := by
    have hrunning : (started.workers 0).task = some ⟨Call.stats, .acquire .heap next⟩ := rfl
    have hadvance : (Program.acquire .heap next).advance started.machine = some (next, machine) :=
      advance_acquire next (hlocks .heap)
    exact .step hstarted (.advance hrunning hadvance)
  have hboth : Reachable both := by
    have hstep : first.Step (first.moved 1 ⟨some ⟨Call.stats, Call.stats.program⟩, []⟩ machine) :=
      .start rfl
    rw [hstats] at hstep
    exact .step hfirst hstep
  have hbusy : (both.workers 1).Busy := ⟨Call.stats, _, rfl, nofun⟩
  have hfree := hboth.deadlock_free
  refine ⟨both, hboth, hfree, rfl, hbusy, ?_, hfree.progress ⟨1, hbusy⟩⟩
  rintro ⟨call, program, out, htask, hadvance⟩
  cases htask
  have hheld : ¬ machine.locks.IsFree .heap := not_not.2 List.mem_cons_self
  cases (advance_acquire_eq_none next hheld).symm.trans hadvance

end Crew

end KernelMemory
