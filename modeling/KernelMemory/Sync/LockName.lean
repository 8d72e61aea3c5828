/-!
# The allocators' locks

Two locks guard the allocators.  A context that needs both takes the heap's
first.
-/

namespace KernelMemory

/-- The lock of the heap's region table and maps, and that of the frame
bitmap. -/
inductive LockName where
  | heap
  | frames
  deriving DecidableEq

end KernelMemory
