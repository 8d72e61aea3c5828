import KernelMemory.Sync.Interrupts

/-!
# Values behind locks

Values that only the holders of their locks touch, each known by the name of
its lock, and seen by one context with its interrupt flag.  A plain guard
stands for a held lock; a masking guard also keeps interrupts disabled, from
before the lock is taken until after it is freed, so a handler never waits for
the code that it interrupted.
-/

namespace KernelMemory

open Program

/-- Guarded values and the context's interrupt flag. -/
structure Guarded (κ α : Type) where
  interrupts : Bool
  values : κ → α

/-- The right to touch the value behind a lock. -/
structure LockGuard (κ : Type) where
  lock : κ
  /-- The masking that came with the lock. -/
  masking : Option MaskGuard

namespace Guarded

variable {κ α β : Type}

/-- Values behind locks, in a context that allows interrupts. -/
def create (values : κ → α) : Guarded κ α := ⟨Interrupts.initially, values⟩

def flag : Focus (Guarded κ α) Bool :=
  fun g => some (g.interrupts, fun interrupts => { g with interrupts })

def lock (name : κ) : Program κ (Guarded κ α) (LockGuard κ) :=
  .acquire name (pure ⟨name, none⟩)

def tryLock (name : κ) : Program κ (Guarded κ α) (Option (LockGuard κ)) :=
  .tryAcquire name fun taken => pure (if taken then some ⟨name, none⟩ else none)

/-- Masks interrupts and takes a lock. -/
def lockMasked (name : κ) : Program κ (Guarded κ α) (LockGuard κ) := do
  let masking ← Interrupts.createGuard flag
  .acquire name (pure ⟨name, some masking⟩)

/-- Frees the lock, and then ends the masking that came with it. -/
def unlock (guard : LockGuard κ) : Program κ (Guarded κ α) Unit :=
  match guard.masking with
  | none => .release guard.lock .done
  | some masking =>
      ensuring (.release guard.lock .done) (Interrupts.dropGuard flag masking)

variable [DecidableEq κ]

def content (name : κ) : Focus (Guarded κ α) α :=
  fun g => some (g.values name, fun value =>
    { g with values := fun other => if other = name then value else g.values other })

/-- Runs a section on the value behind a lock while holding it. -/
def withLock (name : κ) (body : Section α β) : Program κ (Guarded κ α) β := do
  let guard ← lock name
  (within (content name) (critical body)).ensuring (unlock guard)

/-- Runs a section on the value behind a lock while holding it with interrupts
masked. -/
def withLockMasked (name : κ) (body : Section α β) : Program κ (Guarded κ α) β := do
  let guard ← lockMasked name
  (within (content name) (critical body)).ensuring (unlock guard)

end Guarded

end KernelMemory
