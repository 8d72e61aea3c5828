import KernelMemory.Failure

/-!
# Sections

Indivisible computations on a state.  What a section writes before it refuses
or faults stays written, so that a refusal changes nothing is a property of the
section and not of sections.
-/

namespace KernelMemory

/-- An indivisible computation on a state. -/
abbrev Section (σ : Type) := EStateM Failure σ

namespace Section

variable {σ τ α : Type}

/-- The result of a section together with the state it leaves. -/
def perform (body : Section σ α) (s : σ) : Result α × σ :=
  match body.run s with
  | .ok a s' => (.ok a, s')
  | .error failure s' => (.error failure, s')

/-- The section with a given result and a given effect. -/
def ofPerform (f : σ → Result α × σ) : Section σ α := fun s =>
  match f s with
  | (.ok a, s') => .ok a s'
  | (.error failure, s') => .error failure s'

instance : MonadLift Result (Section σ) where
  monadLift result := ofPerform fun s => (result, s)

def refuse (error : AllocError) : Section σ α := throw (.refused error)

/-- Catches every failure. -/
def attempt (body : Section σ α) : Section σ (Result α) :=
  ofPerform fun s =>
    let (result, s') := body.perform s
    (.ok result, s')

/-- Runs a section on a part of a larger state, which is put back on every way
out. -/
def zoom (part : τ → σ) (putBack : τ → σ → τ) (body : Section σ α) : Section τ α :=
  ofPerform fun t =>
    let (result, s) := body.perform (part t)
    (result, putBack t s)

@[simp] theorem perform_ofPerform (f : σ → Result α × σ) (s : σ) :
    (ofPerform f).perform s = f s := by
  rcases h : f s with ⟨a | failure, s'⟩ <;> simp only [perform, EStateM.run, ofPerform, h]

end Section

end KernelMemory
