import KernelMemory.Failure

/-!
# Raw locks

A raw lock is free or held.  A contended waiter spins on a `spin` lock and
gives up its time slice on a `yielding` one; the two differ in nothing else
but the wording of a wrong release.  Releasing a free lock faults and leaves it
free.
-/

namespace KernelMemory

/-- How a waiter waits. -/
inductive LockKind where
  | spin
  | yielding
  deriving DecidableEq

/-- The fault of releasing a lock that nobody holds. -/
def LockKind.releasedFree : LockKind → Fault
  | .spin => .releasedFreeSpin
  | .yielding => .releasedFreeYield

/-- One word that says whether some context holds the lock. -/
structure RawLock where
  kind : LockKind
  held : Bool
  deriving DecidableEq

namespace RawLock

def create (kind : LockKind) : RawLock := ⟨kind, false⟩

/-- Takes the lock if it is free, and says whether it did. -/
def tryAcquire (lock : RawLock) : Bool × RawLock :=
  if lock.held then (false, lock) else (true, { lock with held := true })

/-- Takes the lock; `none` while the caller has to wait. -/
def acquire? (lock : RawLock) : Option RawLock :=
  if lock.held then none else some { lock with held := true }

/-- Frees the lock, and complains if it was free. -/
def release (lock : RawLock) : Result Unit × RawLock :=
  (if lock.held then .ok () else .fault lock.kind.releasedFree, { lock with held := false })

end RawLock

/-- The raw locks that a group of contexts shares: all of one kind, and known
by name.  A lock is held while its name is listed. -/
structure Locks (κ : Type) where
  kind : LockKind
  held : List κ

namespace Locks

variable {κ : Type} [DecidableEq κ]

def free (kind : LockKind) : Locks κ := ⟨kind, []⟩

/-- Whether some context holds the named lock. -/
def isHeld (locks : Locks κ) (name : κ) : Bool := locks.held.contains name

def lock (locks : Locks κ) (name : κ) : RawLock := ⟨locks.kind, locks.isHeld name⟩

/-- The locks after the named one has become held or free. -/
def put (locks : Locks κ) (name : κ) (lock : RawLock) : Locks κ :=
  let others := locks.held.filter (· ≠ name)
  { locks with held := if lock.held then name :: others else others }

end Locks

end KernelMemory
