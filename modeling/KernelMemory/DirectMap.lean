import KernelMemory.Failure
import KernelMemory.Memory
import KernelMemory.Parameters

/-!
# Direct maps

All of physical memory is visible at a fixed distance, so conversion between
physical and virtual addresses is wrapping 64-bit arithmetic.  It is total and
says nothing about what is really mapped.  The two directions of one map undo
each other.

A run of bytes is viewed where the map shows it, and not every run can be: a
view does not start at the null pointer, and does not wrap.
-/

namespace KernelMemory

/-- The view of physical memory at a fixed offset in virtual addresses. -/
inductive DirectMap where
  /-- The kernel's own map, at `Parameters.directMapBase`. -/
  | higherHalf
  /-- A map at an offset of the client's choice. -/
  | at (offset : UInt64)
  deriving DecidableEq

namespace DirectMap

/-- The map that shows the physical address `base` at `window`. -/
def forWindow (base : PhysAddr) (window : VirtAddr) : DirectMap :=
  .at (window.val - base.val)

/-- The distance from a physical address to its image, modulo `2 ^ 64`. -/
def offset : DirectMap → UInt64
  | .higherHalf => Parameters.directMapBase
  | .at offset => offset

/-- Where a physical address is visible. -/
def toVirtual (map : DirectMap) (pa : PhysAddr) : VirtAddr :=
  ⟨pa.val + map.offset⟩

/-- The physical address behind a virtual one. -/
def toPhysical (map : DirectMap) (va : VirtAddr) : PhysAddr :=
  ⟨va.val - map.offset⟩

/-- Whether `n` bytes from `pa` on are shown where a view of them can be. -/
def Shows (map : DirectMap) (pa : PhysAddr) (n : Nat) : Prop :=
  (map.toVirtual pa).isNull = false ∧ n < UInt64.size / 2 ∧
    (map.toVirtual pa).val.toNat + n ≤ UInt64.size

instance (map : DirectMap) (pa : PhysAddr) (n : Nat) : Decidable (map.Shows pa n) :=
  inferInstanceAs (Decidable (_ ∧ _))

/-- Views the `n` bytes from `pa` on. -/
def view (map : DirectMap) (m : Memory) (pa : PhysAddr) (n : Nat) : Result ByteArray :=
  if map.Shows pa n then .ok (m.read pa n) else .fault .invalidSlice

def describe : DirectMap → String
  | .higherHalf => "HhdmPhysMapper"
  | .at offset => Text.record "OffsetPhysMapper" [("offset", toString offset)]

theorem toPhysical_toVirtual (map : DirectMap) (pa : PhysAddr) :
    map.toPhysical (map.toVirtual pa) = pa := by
  simp [toPhysical, toVirtual]

theorem toVirtual_toPhysical (map : DirectMap) (va : VirtAddr) :
    map.toVirtual (map.toPhysical va) = va := by
  simp [toPhysical, toVirtual]

end DirectMap

end KernelMemory
