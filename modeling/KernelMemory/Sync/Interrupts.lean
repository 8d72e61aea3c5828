import KernelMemory.Program.Basic

/-!
# Masking interrupts

Every context has a flag that says whether interrupts may come.  A guard
records the flag when it is created and disables interrupts; when it is
dropped it enables them again only if it found them enabled.  Reading the flag
and changing it are two steps, between which an interrupt may come.
-/

namespace KernelMemory

open Program

/-- The record of whether interrupts were enabled when they were masked. -/
structure MaskGuard where
  wereEnabled : Bool
  deriving DecidableEq

namespace Interrupts

variable {κ σ α : Type}

/-- A context starts with interrupts enabled. -/
def initially : Bool := true

/-- The flag as a state of its own. -/
def flag : Focus Bool Bool := fun enabled => some (enabled, id)

def areEnabled (flag : Focus σ Bool) : Program κ σ Bool :=
  within flag (inspect id)

def enable (flag : Focus σ Bool) : Program κ σ Unit :=
  within flag (update fun _ => true)

def disable (flag : Focus σ Bool) : Program κ σ Unit :=
  within flag (update fun _ => false)

/-- Masks interrupts and records how it found them. -/
def createGuard (flag : Focus σ Bool) : Program κ σ MaskGuard := do
  let wereEnabled ← areEnabled flag
  if wereEnabled then disable flag
  return { wereEnabled }

/-- Enables interrupts again if the guard found them enabled. -/
def dropGuard (flag : Focus σ Bool) (guard : MaskGuard) : Program κ σ Unit := do
  if guard.wereEnabled then enable flag

/-- Runs `body` under a guard. -/
def masked (flag : Focus σ Bool) (body : Program κ σ α) : Program κ σ α := do
  let guard ← createGuard flag
  body.ensuring (dropGuard flag guard)

end Interrupts

end KernelMemory
