import KernelMemory.Failure

/-!
# Checked word arithmetic

Sizes, counts and indices are natural numbers that have to stay below `2 ^ 64`.
Each operation here computes the exact result and faults when that result is no
machine word, so arithmetic that succeeds is ordinary arithmetic.
-/

namespace KernelMemory

/-- The quotient of `n` by `d`, rounded up. -/
def ceilDiv (n d : Nat) : Nat := (n + (d - 1)) / d

namespace Word

/-- The number of machine words. -/
def count : Nat := UInt64.size

/-- `n`, if it is a machine word. -/
def fit (otherwise : Fault) (n : Nat) : Result Nat :=
  if n < count then .ok n else .fault otherwise

/-- The sum, if it is a machine word. -/
def add (a b : Nat) : Result Nat := fit .addOverflow (a + b)

/-- The product, if it is a machine word. -/
def mul (a b : Nat) : Result Nat := fit .mulOverflow (a * b)

/-- The difference, if it is not negative. -/
def sub (a b : Nat) : Result Nat :=
  if b ≤ a then .ok (a - b) else .fault .subOverflow

/-- The least multiple of `d` at or above `n`, if it is a machine word. -/
def nextMultipleOf (n d : Nat) : Result Nat :=
  if n % d = 0 then .ok n else add n (d - n % d)

theorem fit_eq_ok_iff
    {otherwise : Fault} {n m : Nat} :
    fit otherwise n = .ok m ↔ n < count ∧ n = m := by
  by_cases h : n < count <;> simp [fit, Result.fault, h]

theorem add_eq_ok_iff {a b m : Nat} :
    add a b = .ok m ↔ a + b < count ∧ a + b = m :=
  fit_eq_ok_iff

theorem mul_eq_ok_iff {a b m : Nat} :
    mul a b = .ok m ↔ a * b < count ∧ a * b = m :=
  fit_eq_ok_iff

theorem sub_eq_ok_iff {a b m : Nat} :
    sub a b = .ok m ↔ b ≤ a ∧ a - b = m := by
  by_cases h : b ≤ a <;> simp [sub, Result.fault, h]

theorem le_of_nextMultipleOf
    {n d m : Nat}
    (h : nextMultipleOf n d = .ok m) :
    n ≤ m := by
  unfold nextMultipleOf at h
  split at h
  · exact Nat.le_of_eq (Except.ok.inj h)
  · have := (add_eq_ok_iff.1 h).2
    omega

end Word

end KernelMemory
