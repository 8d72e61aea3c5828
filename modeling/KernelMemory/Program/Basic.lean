import KernelMemory.Event
import KernelMemory.Section
import KernelMemory.Sync.RawLock

/-!
# Programs of a context

A program is what one context does to shared state, cut into the pieces that no
other context can get between: an indivisible step on the state, taking or
freeing a lock, or writing a line of the log.  The same program runs alone
(`Program.run`), interleaved with others (`Interleaving`) or interrupted.

A program ends in a `Result`.  A refusal or a fault skips the rest, unless it
is caught: `outcome` catches refusals, `attempt` everything.  Critical sections
use the latter to free their lock on every way out.
-/

namespace KernelMemory

/-- What one context does to shared state `σ` and to locks named by `κ`, up to
a result of type `α`. -/
inductive Program (κ σ α : Type) : Type 1 where
  | done (result : Result α)
  /-- An indivisible step; the context waits while `act` gives nothing. -/
  | step {β : Type} (act : σ → Option (β × σ)) (next : β → Program κ σ α)
  /-- Takes a lock; the context waits while it is held. -/
  | acquire (lock : κ) (next : Program κ σ α)
  /-- Takes a lock if it is free, and goes on knowing whether it did. -/
  | tryAcquire (lock : κ) (next : Bool → Program κ σ α)
  /-- Frees a lock, and goes on knowing whether that was in order. -/
  | release (lock : κ) (next : Result Unit → Program κ σ α)
  | emit (event : Event) (next : Program κ σ α)

namespace Program

variable {κ σ τ α β : Type}

/-- Goes on with `next` if the program delivers. -/
def bind : Program κ σ α → (α → Program κ σ β) → Program κ σ β
  | .done (.ok a), next => next a
  | .done (.error failure), _ => .done (.error failure)
  | .step act rest, next => .step act fun b => (rest b).bind next
  | .acquire lock rest, next => .acquire lock (rest.bind next)
  | .tryAcquire lock rest, next => .tryAcquire lock fun taken => (rest taken).bind next
  | .release lock rest, next => .release lock fun freed => (rest freed).bind next
  | .emit event rest, next => .emit event (rest.bind next)

instance : Monad (Program κ σ) where
  pure a := .done (.ok a)
  bind := bind

def ofResult (result : Result α) : Program κ σ α := .done result

instance : MonadLift Result (Program κ σ) where
  monadLift := ofResult

def refuse (error : AllocError) : Program κ σ α := .done (.refuse error)

def fault (fault : Fault) : Program κ σ α := .done (.fault fault)

def report (event : Event) : Program κ σ Unit := .emit event (.done (.ok ()))

/-- Reads the state in one step. -/
def inspect (f : σ → α) : Program κ σ α := .step (fun s => some (f s, s)) (.done ∘ .ok)

/-- Changes the state in one step. -/
def update (f : σ → σ) : Program κ σ Unit := .step (fun s => some ((), f s)) (.done ∘ .ok)

/-- Waits until `f` gives something, and delivers that. -/
def await (f : σ → Option α) : Program κ σ α :=
  .step (fun s => (f s).map fun a => (a, s)) (.done ∘ .ok)

/-- Runs a section in one step. -/
def critical (body : Section σ α) : Program κ σ α :=
  .step (fun s => some (Section.perform body s)) .done

/-- Catches every failure. -/
def attempt : Program κ σ α → Program κ σ (Result α)
  | .done result => .done (.ok result)
  | .step act rest => .step act fun b => (rest b).attempt
  | .acquire lock rest => .acquire lock rest.attempt
  | .tryAcquire lock rest => .tryAcquire lock fun taken => (rest taken).attempt
  | .release lock rest => .release lock fun freed => (rest freed).attempt
  | .emit event rest => .emit event rest.attempt

/-- Catches refusals; a fault goes on unwinding. -/
def outcome (body : Program κ σ α) : Program κ σ (Except AllocError α) := do
  match ← body.attempt with
  | .ok a => return .ok a
  | .error (.refused error) => return .error error
  | .error (.fault fault) => Program.fault fault

/-- Runs `last` after `body` on every way out, and then ends as `body` did. -/
def ensuring (body : Program κ σ α) (last : Program κ σ Unit) : Program κ σ α := do
  let result ← body.attempt
  last
  ofResult result

/-- Runs `body` while holding `lock`. -/
def withLock (lock : κ) (body : Program κ σ α) : Program κ σ α :=
  .acquire lock (body.ensuring (.release lock .done))

/-- A part of a larger state: the part, and the larger state as a function of
it.  There may be no such part yet. -/
abbrev Focus (τ σ : Type) := τ → Option (σ × (σ → τ))

/-- Runs a program on a part of a larger state; it waits while there is no such
part. -/
def within (focus : Focus τ σ) : Program κ σ α → Program κ τ α
  | .done result => .done result
  | .step act rest =>
      .step
        (fun t => (focus t).bind fun (s, rebuild) =>
          (act s).map fun (b, s') => (b, rebuild s'))
        (fun b => (rest b).within focus)
  | .acquire lock rest => .acquire lock (rest.within focus)
  | .tryAcquire lock rest => .tryAcquire lock fun taken => (rest taken).within focus
  | .release lock rest => .release lock fun freed => (rest freed).within focus
  | .emit event rest => .emit event (rest.within focus)

theorem bind_assoc
    {γ : Type} (program : Program κ σ α)
    (first : α → Program κ σ β) (second : β → Program κ σ γ) :
    (program.bind first).bind second =
      program.bind fun a => (first a).bind second := by
  induction program with
  | done result => cases result <;> rfl
  | step act rest ih => simp only [bind]; congr 1; funext b; exact ih b
  | acquire lock rest ih => simp only [bind, ih]
  | tryAcquire lock rest ih => simp only [bind, ih]
  | release lock rest ih => simp only [bind, ih]
  | emit event rest ih => simp only [bind, ih]

end Program

end KernelMemory
