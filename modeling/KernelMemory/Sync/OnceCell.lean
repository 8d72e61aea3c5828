import KernelMemory.Program.Basic

/-!
# Write-once cells

A cell is empty, being written, or ready with a value that never changes.  The
first context to claim an empty cell runs its initialiser, writes the value and
then publishes it; others are turned away or wait.  An initialiser that faults
leaves the cell claimed for good.

Every operation works on a cell inside a larger state, because an initialiser
may do anything to that state, and may look at the cell itself.
-/

namespace KernelMemory

open Program

/-- A cell that is written at most once. -/
inductive OnceCell (α : Type) where
  | empty
  /-- Claimed; the value may have been written but is not published. -/
  | writing (value : Option α)
  | ready (value : α)

namespace OnceCell

variable {κ σ α : Type}

/-- The published value. -/
def value? : OnceCell α → Option α
  | .ready value => some value
  | _ => none

/-- Whether a value has been published. -/
def isReady (cell : OnceCell α) : Bool := cell.value?.isSome

/-- Claims the cell if it is empty, and says whether it did. -/
def claim : OnceCell α → Bool × OnceCell α
  | .empty => (true, .writing none)
  | cell => (false, cell)

def write (value : α) : OnceCell α → OnceCell α
  | .writing _ => .writing (some value)
  | cell => cell

def publish : OnceCell α → OnceCell α
  | .writing (some value) => .ready value
  | cell => cell

/-- The values that are dropped with the cell. -/
def drop (cell : OnceCell α) : List α := cell.value?.toList

def isInitialized (cell : Focus σ (OnceCell α)) : Program κ σ Bool :=
  within cell (inspect isReady)

def get (cell : Focus σ (OnceCell α)) : Program κ σ (Option α) :=
  within cell (inspect value?)

/-- The published value, for which it waits. -/
def awaitValue (cell : Focus σ (OnceCell α)) : Program κ σ α :=
  within cell (await value?)

/-- How an attempt to initialise a cell ended. -/
inductive Attempt where
  /-- The cell was not empty. -/
  | turnedAway
  /-- The value has been published. -/
  | published
  /-- There was no value to write, and the cell is empty again. -/
  | abandoned
  deriving DecidableEq

/-- Claims the cell and publishes the value that `make` gives; if `make` gives
none the cell becomes empty again. -/
def tryInit (cell : Focus σ (OnceCell α)) (make : Program κ σ (Option α)) :
    Program κ σ Attempt := do
  let claimed ← within cell (.step (fun c => some c.claim) (.done ∘ .ok))
  if claimed then
    match ← make with
    | some value =>
        within cell (update (write value))
        within cell (update publish)
        return .published
    | none =>
        within cell (update fun _ => .empty)
        return .abandoned
  else
    return .turnedAway

/-- Stores a value in an empty cell and gives the stored value; otherwise hands
the value back. -/
def set (cell : Focus σ (OnceCell α)) (value : α) : Program κ σ (Except α α) := do
  match ← tryInit cell (pure (some value)) with
  | .published => return .ok (← awaitValue cell)
  | .turnedAway => return .error value
  | .abandoned => fault .valueLost

/-- The published value; an empty cell is initialised with `init` first. -/
def getOrInit (cell : Focus σ (OnceCell α)) (init : Program κ σ α) : Program κ σ α := do
  let _ ← tryInit cell (some <$> init)
  awaitValue cell

end OnceCell

end KernelMemory
