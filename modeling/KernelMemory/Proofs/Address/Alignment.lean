import KernelMemory.Address.Checked
import KernelMemory.Proofs.Word.Rounding
import Mathlib.Data.Nat.Bitwise
import Mathlib.Order.Bounds.Basic

/-!
# Aligned addresses

Alignment is computed with masks, and means division.  Masking with the
predecessor of a power of two keeps the remainder, so masking with the
complement rounds down; rounding up adds the predecessor first, and the sum
passes the last address exactly if the multiple above does, because a power of
two divides the number of addresses.

The main statement is `isGreatest_alignDown_and_isLeast_alignUp`: which multiples
the masks give for every address, and the laws of rounding that follow.
-/

namespace KernelMemory

/-! ## The multiples next to a number -/

section Multiples

variable {n d : ℕ}

theorem isGreatest_div_mul (n : ℕ) (hd : 0 < d) :
    IsGreatest {t | d ∣ t ∧ t ≤ n} (n / d * d) := by
  constructor
  · exact ⟨Nat.dvd_mul_left d _, Nat.div_mul_le_self n d⟩
  · rintro t ⟨⟨q, rfl⟩, hle⟩
    rw [Nat.mul_comm d q] at hle ⊢
    exact Nat.mul_le_mul_right d ((Nat.le_div_iff_mul_le hd).2 hle)

theorem isLeast_ceilDiv_mul (n : ℕ) (hd : 0 < d) :
    IsLeast {t | d ∣ t ∧ n ≤ t} (ceilDiv n d * d) := by
  constructor
  · exact ⟨Nat.dvd_mul_left d _, le_ceilDiv_mul n hd⟩
  · rintro t ⟨hdvd, hle⟩
    exact ceilDiv_mul_le hd hdvd hle

theorem ceilDiv_mul_of_dvd (hd : 0 < d) (hdvd : d ∣ n) : ceilDiv n d * d = n :=
  Nat.le_antisymm (ceilDiv_mul_le hd hdvd (Nat.le_refl n)) (le_ceilDiv_mul n hd)

theorem ceilDiv_mul_mono {m : ℕ} (hd : 0 < d) (h : n ≤ m) :
    ceilDiv n d * d ≤ ceilDiv m d * d :=
  ceilDiv_mul_le hd (Nat.dvd_mul_left d _) (h.trans (le_ceilDiv_mul m hd))

theorem ceilDiv_mul_eq_div_mul_iff (hd : 0 < d) :
    ceilDiv n d * d = n / d * d ↔ d ∣ n := by
  constructor
  · intro h
    have hlow := Nat.div_mul_le_self n d
    have hhigh := le_ceilDiv_mul n hd
    exact ⟨n / d, by rw [Nat.mul_comm]; omega⟩
  · intro hdvd
    rw [ceilDiv_mul_of_dvd hd hdvd, Nat.div_mul_cancel hdvd]

/-- The multiple above stays below a limit that is itself a multiple exactly if
the sum that is rounded down does. -/
theorem ceilDiv_mul_lt_iff {limit : ℕ} (hd : 0 < d) (hdvd : d ∣ limit) :
    ceilDiv n d * d < limit ↔ n + (d - 1) < limit := by
  obtain ⟨q, rfl⟩ := hdvd
  rw [ceilDiv, Nat.mul_comm d q, Nat.mul_lt_mul_right hd, Nat.div_lt_iff_lt_mul hd]

theorem isPowerOfTwo_dvd
    {m : ℕ} (hm : m.isPowerOfTwo) (hn : n.isPowerOfTwo) (hle : m ≤ n) : m ∣ n := by
  obtain ⟨j, rfl⟩ := hm
  obtain ⟨k, rfl⟩ := hn
  exact Nat.pow_dvd_pow 2 ((Nat.pow_le_pow_iff_right (by decide)).1 hle)

end Multiples

/-! ## Masks -/

section Masks

variable {p : UInt64}

theorem isPowerOfTwo_dvd_size (hp : p.toNat.isPowerOfTwo) : p.toNat ∣ UInt64.size :=
  isPowerOfTwo_dvd hp ⟨64, rfl⟩ (Nat.le_of_lt p.toNat_lt)

theorem toNat_sub_one (hp : p.toNat.isPowerOfTwo) : (p - 1).toNat = p.toNat - 1 := by
  have hpos := Nat.pos_of_isPowerOfTwo hp
  apply UInt64.toNat_sub_of_le
  rw [UInt64.le_iff_toNat_le]
  exact hpos

/-- Masking with the predecessor of a power of two keeps the remainder. -/
theorem toNat_and_sub_one (a : UInt64) (hp : p.toNat.isPowerOfTwo) :
    (a &&& (p - 1)).toNat = a.toNat % p.toNat := by
  rw [UInt64.toNat_and, toNat_sub_one hp]
  obtain ⟨k, hk⟩ := hp
  rw [hk]
  exact Nat.and_two_pow_sub_one_eq_mod a.toNat k

/-- A mask and its complement split a word. -/
theorem toNat_and_add_toNat_and_not (a mask : UInt64) :
    (a &&& mask).toNat + (a &&& ~~~mask).toNat = a.toNat := by
  have hdisjoint : (a.toBitVec &&& mask.toBitVec) &&& (a.toBitVec &&& ~~~mask.toBitVec) = 0 := by
    ext i hi
    cases ha : a.toBitVec[i] <;> simp [ha]
  have hunion : (a.toBitVec &&& mask.toBitVec) ||| (a.toBitVec &&& ~~~mask.toBitVec) =
      a.toBitVec := by
    ext i hi
    cases ha : a.toBitVec[i] <;> simp [ha]
  have hsum := BitVec.add_eq_or_of_and_eq_zero _ _ hdisjoint
  rw [hunion] at hsum
  have hnat := congrArg BitVec.toNat hsum
  rwa [BitVec.toNat_add_of_and_eq_zero hdisjoint] at hnat

/-- Masking the predecessor of a power of two away rounds down. -/
theorem toNat_and_not_sub_one (a : UInt64) (hp : p.toNat.isPowerOfTwo) :
    (a &&& ~~~(p - 1)).toNat = a.toNat / p.toNat * p.toNat := by
  have hsplit := toNat_and_add_toNat_and_not a (p - 1)
  have hdiv := Nat.div_add_mod a.toNat p.toNat
  rw [toNat_and_sub_one a hp] at hsplit
  rw [Nat.mul_comm]
  omega

end Masks

theorem PageSize.isPowerOfTwo_bytes (size : PageSize) : size.bytes.toNat.isPowerOfTwo :=
  ⟨size.shift, by rw [size.bytes_eq_one_shiftLeft, Nat.one_shiftLeft]⟩

theorem PageSize.bytes_pos (size : PageSize) : 0 < size.bytes.toNat :=
  Nat.pos_of_isPowerOfTwo size.isPowerOfTwo_bytes

namespace Address

variable {kind : AddressKind} {a b : Address kind} {size : PageSize}

/-! ## Offsets -/

theorem exists_checkedAdd? {n : UInt64} (h : a.val.toNat + n.toNat < UInt64.size) :
    ∃ b, a.checkedAdd? n = some b ∧ b.val.toNat = a.val.toNat + n.toNat := by
  refine ⟨⟨a.val + n⟩, if_pos h, ?_⟩
  rw [UInt64.toNat_add]
  exact Nat.mod_eq_of_lt h

theorem exists_add {n : UInt64} (h : a.val.toNat + n.toNat < UInt64.size) :
    ∃ b, a.add n = .ok b ∧ b.val.toNat = a.val.toNat + n.toNat := by
  obtain ⟨b, hsum, hb⟩ := exists_checkedAdd? h
  exact ⟨b, by rw [add, hsum], hb⟩

theorem offsetFrom?_eq_some_iff {base : Address kind} {offset : UInt64} :
    a.offsetFrom? base = some offset ↔ a.val.toNat = base.val.toNat + offset.toNat := by
  unfold offsetFrom?
  split
  · next hle =>
      have hsub := UInt64.toNat_sub_of_le a.val base.val hle
      rw [UInt64.le_iff_toNat_le] at hle
      rw [Option.some.injEq, ← UInt64.toNat_inj, hsub]
      omega
  · next hlt =>
      rw [UInt64.le_iff_toNat_le] at hlt
      constructor
      · intro h
        cases h
      · intro h
        omega

/-! ## Rounding addresses -/

theorem isAlignedTo_eq (a : Address kind) {p : UInt64} (hp : p.toNat.isPowerOfTwo) :
    a.isAlignedTo p = .ok (decide (p.toNat ∣ a.val.toNat)) := by
  have hmask : a.val &&& (p - 1) = 0 ↔ p.toNat ∣ a.val.toNat := by
    rw [← UInt64.toNat_inj, toNat_and_sub_one a.val hp, Nat.dvd_iff_mod_eq_zero]
    rfl
  rw [isAlignedTo, if_pos hp, beq_eq_decide]
  simp only [hmask]

theorem isAligned_iff : a.isAligned size = true ↔ size.bytes.toNat ∣ a.val.toNat := by
  rw [isAligned, beq_iff_eq, ← UInt64.toNat_inj,
    toNat_and_sub_one a.val size.isPowerOfTwo_bytes, Nat.dvd_iff_mod_eq_zero]
  rfl

theorem toNat_alignDown (a : Address kind) (size : PageSize) :
    (a.alignDown size).val.toNat = a.val.toNat / size.bytes.toNat * size.bytes.toNat :=
  toNat_and_not_sub_one a.val size.isPowerOfTwo_bytes

theorem alignUp?_cases (a : Address kind) (size : PageSize) :
    (∃ b, a.alignUp? size = some b ∧
      b.val.toNat = ceilDiv a.val.toNat size.bytes.toNat * size.bytes.toNat) ∨
    (a.alignUp? size = none ∧
      UInt64.size ≤ ceilDiv a.val.toNat size.bytes.toNat * size.bytes.toNat) := by
  have hmask := toNat_sub_one size.isPowerOfTwo_bytes
  have hlimit := ceilDiv_mul_lt_iff (n := a.val.toNat) size.bytes_pos
    (isPowerOfTwo_dvd_size size.isPowerOfTwo_bytes)
  rw [← hmask] at hlimit
  rw [alignUp?]
  by_cases hlt : a.val.toNat + (size.bytes - 1).toNat < UInt64.size
  · obtain ⟨c, hsum, hc⟩ := exists_checkedAdd? hlt
    refine Or.inl ⟨c.alignDown size, ?_, ?_⟩
    · rw [hsum, Option.map_some]
    · rw [toNat_alignDown, hc, hmask, ceilDiv]
  · refine Or.inr ⟨?_, Nat.le_of_not_lt fun h => hlt (hlimit.1 h)⟩
    rw [checkedAdd?, if_neg hlt, Option.map_none]

theorem alignUp?_eq_some_iff :
    a.alignUp? size = some b ↔
      b.val.toNat = ceilDiv a.val.toNat size.bytes.toNat * size.bytes.toNat := by
  have hb : b.val.toNat < UInt64.size := b.val.toNat_lt
  rcases a.alignUp?_cases size with ⟨c, hsome, hc⟩ | ⟨hnone, hlarge⟩
  · rw [hsome, Option.some.injEq, ← hc]
    constructor
    · rintro rfl
      rfl
    · intro h
      exact (eq_of_toNat h).symm
  · rw [hnone]
    constructor
    · intro h
      cases h
    · intro h
      omega

theorem alignUp?_eq_none_iff :
    a.alignUp? size = none ↔
      UInt64.size ≤ ceilDiv a.val.toNat size.bytes.toNat * size.bytes.toNat := by
  rcases a.alignUp?_cases size with ⟨c, hsome, hc⟩ | ⟨hnone, hlarge⟩
  · have hlt : c.val.toNat < UInt64.size := c.val.toNat_lt
    rw [hsome]
    constructor
    · intro h
      cases h
    · intro h
      omega
  · exact iff_of_true hnone hlarge

theorem alignDown_alignDown (a : Address kind) (size : PageSize) :
    (a.alignDown size).alignDown size = a.alignDown size := by
  apply eq_of_toNat
  rw [toNat_alignDown, toNat_alignDown, Nat.mul_div_cancel _ size.bytes_pos]

theorem alignUp?_of_alignUp? (h : a.alignUp? size = some b) : b.alignUp? size = some b := by
  rw [alignUp?_eq_some_iff] at h ⊢
  have hdvd : size.bytes.toNat ∣ b.val.toNat := ⟨_, by rw [h, Nat.mul_comm]⟩
  exact (ceilDiv_mul_of_dvd size.bytes_pos hdvd).symm

theorem alignDown_mono (size : PageSize) (h : a.val ≤ b.val) :
    (a.alignDown size).val ≤ (b.alignDown size).val := by
  rw [UInt64.le_iff_toNat_le] at h ⊢
  rw [toNat_alignDown, toNat_alignDown]
  exact Nat.mul_le_mul_right _ (Nat.div_le_div_right h)

theorem alignUp?_mono {b' : Address kind} (h : a.val ≤ b.val) (hb : b.alignUp? size = some b') :
    ∃ a', a.alignUp? size = some a' ∧ a'.val ≤ b'.val := by
  rw [UInt64.le_iff_toNat_le] at h
  rw [alignUp?_eq_some_iff] at hb
  have hlt : b'.val.toNat < UInt64.size := b'.val.toNat_lt
  have hmono := ceilDiv_mul_mono size.bytes_pos h
  rcases a.alignUp?_cases size with ⟨a', hsome, ha⟩ | ⟨-, hlarge⟩
  · refine ⟨a', hsome, ?_⟩
    rw [UInt64.le_iff_toNat_le]
    omega
  · omega

theorem alignUp?_eq_alignDown_iff (a : Address kind) (size : PageSize) :
    a.alignUp? size = some (a.alignDown size) ↔ size.bytes.toNat ∣ a.val.toNat := by
  rw [alignUp?_eq_some_iff, toNat_alignDown, eq_comm, ceilDiv_mul_eq_div_mul_iff size.bytes_pos]

/-- Masks and additions round addresses of every kind as division does.  A test
for alignment is a test for divisibility, whatever the power of two.  Rounding
down gives the greatest page boundary at or below, and rounding up the least at
or above, or nothing exactly if that is no address.  Both leave what they have
rounded, both keep the order, and they agree on page boundaries only.  Moving
on by an offset and measuring it are inverse as long as the sum is an
address. -/
theorem isGreatest_alignDown_and_isLeast_alignUp (kind : AddressKind) :
    (∀ (a : Address kind) (p : UInt64), p.toNat.isPowerOfTwo →
      a.isAlignedTo p = .ok (decide (p.toNat ∣ a.val.toNat))) ∧
    (∀ a : Address kind,
      IsGreatest {n | 4096 ∣ n ∧ n ≤ a.val.toNat} (a.alignDown .size4K).val.toNat) ∧
    (∀ a : Address kind, ∃ n, IsLeast {n | 4096 ∣ n ∧ a.val.toNat ≤ n} n ∧
      (∀ b, a.alignUp? .size4K = some b ↔ b.val.toNat = n) ∧
      (a.alignUp? .size4K = none ↔ 2 ^ 64 ≤ n)) ∧
    (∀ a : Address kind, (a.alignDown .size4K).alignDown .size4K = a.alignDown .size4K ∧
      ∀ b, a.alignUp? .size4K = some b → b.alignUp? .size4K = some b) ∧
    (∀ a b : Address kind, a.val ≤ b.val →
      (a.alignDown .size4K).val ≤ (b.alignDown .size4K).val ∧
      ∀ b', b.alignUp? .size4K = some b' →
        ∃ a', a.alignUp? .size4K = some a' ∧ a'.val ≤ b'.val) ∧
    (∀ a : Address kind,
      a.alignUp? .size4K = some (a.alignDown .size4K) ↔ 4096 ∣ a.val.toNat) ∧
    (∀ (base : Address kind) (n : UInt64), base.val.toNat + n.toNat < 2 ^ 64 →
      ∃ a, base.add n = .ok a ∧ a.offsetFrom? base = some n) := by
  refine ⟨fun a p hp => a.isAlignedTo_eq hp, ?_, ?_, ?_, ?_, ?_, ?_⟩
  · intro a
    rw [toNat_alignDown]
    exact isGreatest_div_mul a.val.toNat PageSize.size4K.bytes_pos
  · intro a
    exact ⟨_, isLeast_ceilDiv_mul a.val.toNat PageSize.size4K.bytes_pos,
      fun b => alignUp?_eq_some_iff, alignUp?_eq_none_iff⟩
  · intro a
    exact ⟨a.alignDown_alignDown .size4K, fun b => alignUp?_of_alignUp?⟩
  · intro a b h
    exact ⟨alignDown_mono .size4K h, fun b' => alignUp?_mono h⟩
  · intro a
    exact a.alignUp?_eq_alignDown_iff .size4K
  · intro base n h
    obtain ⟨a, hsum, ha⟩ := exists_add h
    exact ⟨a, hsum, offsetFrom?_eq_some_iff.2 ha⟩

/-- The last page boundary is rounded to itself and the addresses behind it
round up to nothing, as the multiple there is `2 ^ 64`.  Half the address space
is the largest power of two that can be asked for. -/
theorem align_at_last_page :
    (⟨0xFFFFFFFFFFFFF000⟩ : PhysAddr).alignUp? .size4K = some ⟨0xFFFFFFFFFFFFF000⟩ ∧
      (⟨0xFFFFFFFFFFFFF001⟩ : PhysAddr).alignUp? .size4K = none ∧
      (⟨0xFFFFFFFFFFFFF001⟩ : PhysAddr).isAlignedTo 1 = .ok true ∧
      (⟨0xFFFFFFFFFFFFF001⟩ : PhysAddr).isAlignedTo 0x8000000000000000 = .ok false ∧
      ∃ a : PhysAddr, Address.add ⟨0xFFFFFFFFFFFFF000⟩ 0xFFF = .ok a ∧
        a.offsetFrom? ⟨0xFFFFFFFFFFFFF000⟩ = some 0xFFF := by
  obtain ⟨hdivides, -, hup, -, -, hagree, hoffset⟩ :=
    isGreatest_alignDown_and_isLeast_alignUp .physical
  refine ⟨?_, ?_, ?_, ?_, ?_⟩
  · exact (hagree ⟨0xFFFFFFFFFFFFF000⟩).2 (by decide)
  · obtain ⟨n, hleast, -, hnone⟩ := hup ⟨0xFFFFFFFFFFFFF001⟩
    obtain ⟨q, hq⟩ := hleast.1.1
    have hlow : 0xFFFFFFFFFFFFF001 ≤ n := hleast.1.2
    exact hnone.2 (by omega)
  · rw [hdivides _ 1 ⟨0, by decide⟩]
    rfl
  · rw [hdivides _ 0x8000000000000000 ⟨63, by decide⟩]
    rfl
  · exact hoffset ⟨0xFFFFFFFFFFFFF000⟩ 0xFFF (by decide)

end Address

end KernelMemory
