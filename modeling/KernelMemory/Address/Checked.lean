import KernelMemory.Failure

/-!
# Addresses and faults

The two operations on addresses that can break: moving past the last address,
and testing alignment against something that is no power of two.
-/

namespace KernelMemory.Address

variable {kind : AddressKind}

/-- The address `n` bytes further; a fault if that passes the last address. -/
def add (a : Address kind) (n : UInt64) : Result (Address kind) :=
  match a.checkedAdd? n with
  | some b => .ok b
  | none => .fault .addOverflow

/-- Whether the address is a multiple of `align`; a fault unless `align` is a
power of two. -/
def isAlignedTo (a : Address kind) (align : UInt64) : Result Bool :=
  if align.toNat.isPowerOfTwo then .ok (a.val &&& (align - 1) == 0)
  else .fault .alignmentNotPowerOfTwo

end KernelMemory.Address
