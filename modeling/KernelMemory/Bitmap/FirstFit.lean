import KernelMemory.Bitmap.Scan

/-!
# First-fit allocation

The lowest aligned run of free units.  The search proposes the first aligned
start at or above a free unit.  If the window there holds a used unit, no
window that starts at or before its last used unit can be free, so the search
goes on behind that unit.
-/

namespace KernelMemory.Bitmap

/-- The lowest start at or above `low` of `count` free units that is a multiple
of `align`. -/
def findRun (map : Bitmap) (count align low : Nat) : Result (Option Nat) :=
  match _hfree : map.firstClearFrom low with
  | .error failure => .error failure
  | .ok none => .ok none
  | .ok (some free) =>
      match _hstart : Word.nextMultipleOf free align with
      | .error failure => .error failure
      | .ok start =>
          if hfits : start + count ≤ map.units then
            match hbusy : map.lastSetIn start (start + count) hfits with
            | none => .ok (some start)
            | some busy => map.findRun count align (busy + 1)
          else
            .ok none
termination_by map.units - low
decreasing_by
  have h₁ := le_of_firstClearFrom _hfree
  have h₂ := Word.le_of_nextMultipleOf _hstart
  have h₃ := le_of_lastSetIn hbusy
  have h₄ := lt_of_lastSetIn hbusy
  omega

/-- Takes the lowest run of `count` free units that starts at a multiple of
`align`, and gives its first unit. -/
def allocAligned (count align : Nat) : Section Bitmap Nat := do
  let map ← get
  if count = 0 then
    .refuse (.invalidArgument .emptyRun)
  else if ¬ align.isPowerOfTwo then
    .refuse (.invalidArgument .alignmentNotPowerOfTwo)
  else if map.units < count then
    .refuse .outOfMemory
  else
    match ← map.findRun count align 0 with
    | some start =>
        setRange start count true
        return start
    | none => .refuse .outOfMemory

/-- Takes the lowest run of `count` free units. -/
def alloc (count : Nat) : Section Bitmap Nat :=
  allocAligned count 1

end KernelMemory.Bitmap
