import KernelMemory.Word

/-!
# Rounding

Exact forms of rounded division: when checked rounding up delivers, and that
its result is the least multiple at or above its argument.
-/

namespace KernelMemory

theorem Word.count_eq : Word.count = 18446744073709551616 := rfl

theorem le_ceilDiv_mul (n : Nat) {d : Nat} (hd : 0 < d) : n ≤ ceilDiv n d * d := by
  have hdiv := Nat.div_add_mod (n + (d - 1)) d
  have hmod := Nat.mod_lt (n + (d - 1)) hd
  rw [ceilDiv, Nat.mul_comm]
  omega

theorem ceilDiv_mul_lt (n : Nat) {d : Nat} (hd : 0 < d) : ceilDiv n d * d < n + d := by
  have hdiv := Nat.div_add_mod (n + (d - 1)) d
  rw [ceilDiv, Nat.mul_comm]
  omega

theorem ceilDiv_mul_le {n d t : Nat} (hd : 0 < d) (hdvd : d ∣ t) (hle : n ≤ t) :
    ceilDiv n d * d ≤ t := by
  obtain ⟨q, rfl⟩ := hdvd
  have hlt : ceilDiv n d * d < (q + 1) * d := by
    have := ceilDiv_mul_lt n hd
    rw [Nat.add_mul, Nat.one_mul, Nat.mul_comm q d]
    omega
  have hq : ceilDiv n d ≤ q := Nat.le_of_lt_succ (Nat.lt_of_mul_lt_mul_right hlt)
  rw [Nat.mul_comm d q]
  exact Nat.mul_le_mul_right d hq

/-- Checked rounding up delivers if there is room for one more divisor. -/
theorem Word.nextMultipleOf_eq {n d : Nat} (hd : 0 < d) (h : n + d ≤ Word.count) :
    Word.nextMultipleOf n d = .ok (ceilDiv n d * d) := by
  have hdiv := Nat.div_add_mod n d
  have hmod := Nat.mod_lt n hd
  unfold nextMultipleOf
  split
  · have hn : d ∣ n := Nat.dvd_of_mod_eq_zero ‹_›
    have hle := ceilDiv_mul_le hd hn (Nat.le_refl n)
    rw [Nat.le_antisymm hle (le_ceilDiv_mul n hd)]
  · have hnext : n + (d - n % d) = d * (n / d + 1) := by
      rw [Nat.mul_add, Nat.mul_one]
      omega
    have hdvd : d ∣ n + (d - n % d) := ⟨n / d + 1, hnext⟩
    have hle := ceilDiv_mul_le hd hdvd (Nat.le_add_right n _)
    have hge : d * (n / d + 1) ≤ ceilDiv n d * d := by
      have hlow := le_ceilDiv_mul n hd
      have hlt : d * (n / d) < ceilDiv n d * d := by omega
      rw [Nat.mul_comm (ceilDiv n d)] at hlt ⊢
      exact Nat.mul_le_mul_left d (Nat.lt_of_mul_lt_mul_left hlt)
    rw [add_eq_ok_iff]
    omega

end KernelMemory
