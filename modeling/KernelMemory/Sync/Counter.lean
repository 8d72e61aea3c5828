import KernelMemory.Text.Record

/-!
# Shared counters

A 64-bit counter that is updated by fetch-and-add: one indivisible step reads
the old value and stores the new one.  Arithmetic wraps modulo `2 ^ 64`, and
every update gives the value right after it.
-/

namespace KernelMemory

/-- A wrapping 64-bit counter. -/
structure Counter where
  value : UInt64
  deriving DecidableEq

namespace Counter

def zero : Counter := ⟨0⟩

/-- Adds `n` and gives the value before. -/
def fetchAdd (c : Counter) (n : UInt64) : UInt64 × Counter := (c.value, ⟨c.value + n⟩)

def fetchSub (c : Counter) (n : UInt64) : UInt64 × Counter := (c.value, ⟨c.value - n⟩)

/-- Adds `n` and gives the value after. -/
def add (c : Counter) (n : UInt64) : UInt64 × Counter :=
  let (old, c) := c.fetchAdd n
  (old + n, c)

def sub (c : Counter) (n : UInt64) : UInt64 × Counter :=
  let (old, c) := c.fetchSub n
  (old - n, c)

def increment (c : Counter) : UInt64 × Counter := c.add 1

def decrement (c : Counter) : UInt64 × Counter := c.sub 1

def describe (c : Counter) : String := Text.wrapped "AtomicCounter" (toString c.value)

end Counter

end KernelMemory
