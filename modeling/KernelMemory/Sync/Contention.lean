import KernelMemory.Interleaving
import KernelMemory.Sync.RawLock

/-!
# Contended locks, step by step

Several contexts use one value behind a lock, at the granularity of single
memory accesses: the compare-exchange that takes the lock, the load on which a
spinning waiter watches it, the reads and the writes of the value, and the swap
that frees the lock.

What a context does is any code that touches the value and frees the lock
through a guard only.  That it does so is part of the type of the code, which
counts the guards that the context has.
-/

namespace KernelMemory.Contention

variable {α : Type}

/-- A lock word and the value it guards. -/
structure Shared (α : Type) where
  lock : RawLock
  value : α

/-- The code of a context that has some number of guards.  It may end with
guards that it never drops. -/
inductive Code (α : Type) : (guards : Nat) → Type where
  | stop {guards : Nat} : Code α guards
  /-- Waits for the lock, and goes on with one more guard. -/
  | lock {guards : Nat} (next : Code α (guards + 1)) : Code α guards
  /-- Tries to take the lock. -/
  | tryLock {guards : Nat} (taken : Code α (guards + 1)) (refused : Code α guards) :
      Code α guards
  | read {guards : Nat} (next : α → Code α (guards + 1)) : Code α (guards + 1)
  | write {guards : Nat} (value : α) (next : Code α (guards + 1)) : Code α (guards + 1)
  /-- Drops a guard, which frees the lock. -/
  | unlock {guards : Nat} (next : Code α guards) : Code α (guards + 1)

namespace Code

variable {guards : Nat}

/-- Replaces the value by what `f` makes of it, with a read and a separate
write, and drops the guard. -/
def updating (f : α → α) (next : Code α guards) : Code α (guards + 1) :=
  .read fun seen => .write (f seen) (.unlock next)

/-- Updates the value under the lock. -/
def update (f : α → α) (next : Code α guards) : Code α guards := .lock (updating f next)

/-- Updates the value some number of times. -/
def updates (f : α → α) : (times : Nat) → Code α 0
  | 0 => .stop
  | times + 1 => update f (updates f times)

end Code

/-- Where a context stands. -/
inductive Context (α : Type) where
  | running {guards : Nat} (code : Code α guards)
  /-- About to look whether the lock has become free. -/
  | watching {guards : Nat} (next : Code α (guards + 1))
  /-- Stopped by a fault. -/
  | stopped (failure : Failure)

/-- A context that goes on waiting after it has found the lock held. -/
def Context.waiting {guards : Nat} (next : Code α (guards + 1)) : LockKind → Context α
  | .spin => .watching next
  | .yielding => .running (.lock next)

/-- One memory access of a context. -/
def step : Stepper (Shared α) (Context α)
  | .running .stop, _ => none
  | .running (.lock next), s =>
      match s.lock.tryAcquire with
      | (true, lock) => some (.running next, { s with lock })
      | (false, lock) => some (.waiting next lock.kind, { s with lock })
  | .running (.tryLock taken refused), s =>
      match s.lock.tryAcquire with
      | (true, lock) => some (.running taken, { s with lock })
      | (false, lock) => some (.running refused, { s with lock })
  | .running (.read next), s => some (.running (next s.value), s)
  | .running (.write value next), s => some (.running next, { s with value })
  | .running (.unlock next), s =>
      match s.lock.release with
      | (.ok (), lock) => some (.running next, { s with lock })
      | (.error failure, lock) => some (.stopped failure, { s with lock })
  | .watching next, s => some (if s.lock.held then .watching next else .running (.lock next), s)
  | .stopped _, _ => none

/-- Contexts that are about to start, with the lock free. -/
def start (kind : LockKind) (value : α) (codes : List (Code α 0)) :
    Config (Shared α) (Context α) :=
  ⟨⟨.create kind, value⟩, codes.map .running⟩

end KernelMemory.Contention
