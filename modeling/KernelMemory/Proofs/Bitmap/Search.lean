import KernelMemory.Bitmap.FirstFit
import KernelMemory.Proofs.Bitmap.Marks
import KernelMemory.Proofs.Word.Rounding
import Mathlib.Order.Bounds.Basic

/-!
# Searching a bitmap for room

What the scans and the first-fit search find, for arbitrary storage.  The scans
pass over whole bytes, but they find what a unit-by-unit scan finds; the search
finds the least aligned start of a free run, and refuses only if there is none.
The index arithmetic stays inside a machine word as long as a bitmap tracks at
most `2 ^ 63` units.
-/

namespace KernelMemory

/-! ## Searching from below -/

/-- The lowest number below `n` with a property. -/
def lowest? (n : Nat) (p : Nat → Bool) : Option Nat := (List.range n).find? p

theorem lowest?_eq_some_iff
    {n t : Nat} {p : Nat → Bool} (hbound : ∀ t, p t = true → t < n) :
    lowest? n p = some t ↔ IsLeast {t | p t = true} t := by
  rw [lowest?, List.find?_range_eq_some]
  constructor
  · rintro ⟨ht, -, hleast⟩
    refine ⟨ht, fun i hi => Nat.le_of_not_lt fun hlt => ?_⟩
    have hnot := hleast i hlt
    rw [Bool.not_eq_true', ← Bool.not_eq_true] at hnot
    exact hnot hi
  · rintro ⟨ht, hleast⟩
    refine ⟨ht, List.mem_range.2 (hbound t ht), fun i hlt => ?_⟩
    rw [Bool.not_eq_true', ← Bool.not_eq_true]
    exact fun hi => Nat.not_lt.2 (hleast hi) hlt

theorem lowest?_eq_none_iff
    {n : Nat} {p : Nat → Bool} (hbound : ∀ t, p t = true → t < n) :
    lowest? n p = none ↔ ∀ t, ¬ p t = true := by
  rw [lowest?, List.find?_eq_none]
  exact ⟨fun h t ht => h t (List.mem_range.2 (hbound t ht)) ht, fun h t _ => h t⟩

namespace Bitmap

/-- The most units for which no index computation can leave a machine word. -/
def maxUnits : Nat := 9223372036854775808

theorem maxUnits_add_maxUnits : maxUnits + maxUnits = Word.count := rfl

/-- A run of `count` free units that starts at a multiple of `align`. -/
structure Fits (map : Bitmap) (count align start : Nat) : Prop where
  aligned : align ∣ start
  inside : start + count ≤ map.units
  clear : ∀ i, start ≤ i → i < start + count → map.isSet i = false

/-! ## The two scans -/

/-- The scan upwards finds the first free unit. -/
theorem firstClearFrom_cases
    (map : Bitmap) (hunits : map.units ≤ maxUnits) (i : Nat) :
    (∃ free, map.firstClearFrom i = .ok (some free) ∧ i ≤ free ∧ free < map.units ∧
      map.isSet free = false ∧ ∀ j, i ≤ j → j < free → map.isSet j = true) ∨
    (map.firstClearFrom i = .ok none ∧
      ∀ j, i ≤ j → j < map.units → map.isSet j = true) := by
  fun_induction firstClearFrom map i with
  | case1 i hi hbyte ih =>
      have hadd : Word.add i 8 = .ok (i + 8) := by
        rw [Word.add_eq_ok_iff]
        have := maxUnits_add_maxUnits
        have : maxUnits = 9223372036854775808 := rfl
        omega
      have hi8 : 8 * (i / 8) = i := by omega
      have hfull : ∀ j, i ≤ j → j < i + 8 → map.isSet j = true := by
        have := (map.byte_eq_full_iff (map.div_eight_lt_length hi)).1 hbyte.2
        rwa [hi8] at this
      simp only [hadd, bind, Except.bind]
      rcases ih with ⟨free, hrun, hle, hlt, hclear, hbelow⟩ | ⟨hrun, hall⟩
      · refine Or.inl ⟨free, hrun, by omega, hlt, hclear, ?_⟩
        intro j hij hj
        by_cases hskip : j < i + 8
        · exact hfull j hij hskip
        · exact hbelow j (by omega) hj
      · refine Or.inr ⟨hrun, ?_⟩
        intro j hij hj
        by_cases hskip : j < i + 8
        · exact hfull j hij hskip
        · exact hall j (by omega) hj
  | case2 i hi _ hbit ih =>
      rw [bit_eq_isSet] at hbit
      rcases ih with ⟨free, hrun, hle, hlt, hclear, hbelow⟩ | ⟨hrun, hall⟩
      · refine Or.inl ⟨free, hrun, by omega, hlt, hclear, ?_⟩
        intro j hij hj
        rcases Nat.eq_or_lt_of_le hij with rfl | hlt'
        · exact hbit
        · exact hbelow j hlt' hj
      · refine Or.inr ⟨hrun, ?_⟩
        intro j hij hj
        rcases Nat.eq_or_lt_of_le hij with rfl | hlt'
        · exact hbit
        · exact hall j hlt' hj
  | case3 i hi _ hbit =>
      rw [bit_eq_isSet] at hbit
      refine Or.inl ⟨i, rfl, Nat.le_refl i, hi, Bool.eq_false_of_not_eq_true hbit, ?_⟩
      intro j hij hj
      omega
  | case4 i hi =>
      refine Or.inr ⟨rfl, ?_⟩
      intro j hij hj
      omega

theorem firstClearFrom_spec
    {map : Bitmap} (hunits : map.units ≤ maxUnits) {i free : Nat}
    (h : map.firstClearFrom i = .ok (some free)) :
    i ≤ free ∧ free < map.units ∧ ∀ j, i ≤ j → j < free → map.isSet j = true := by
  rcases map.firstClearFrom_cases hunits i with ⟨free', hrun, hle, hlt, -, hused⟩ | ⟨hrun, -⟩ <;>
    rw [hrun] at h <;> cases h
  exact ⟨hle, hlt, hused⟩

theorem lastSetIn_cases
    (map : Bitmap) (start stop : Nat) (h : stop ≤ map.units) :
    (∃ busy, map.lastSetIn start stop h = some busy ∧ start ≤ busy ∧ busy < stop ∧
      map.isSet busy = true ∧ ∀ j, busy < j → j < stop → map.isSet j = false) ∨
    (map.lastSetIn start stop h = none ∧
      ∀ j, start ≤ j → j < stop → map.isSet j = false) := by
  fun_induction lastSetIn map start stop h with
  | case1 stop h hs hinside hbyte ih =>
      obtain ⟨hmod, hlen, hzero⟩ := hbyte
      have hlow : 8 * (stop / 8 - 1) = stop - 8 := by clear ih; omega
      have hhigh : 8 * (stop / 8 - 1) + 8 = stop := by clear ih; omega
      have hempty : ∀ j, stop - 8 ≤ j → j < stop → map.isSet j = false := by
        have := (map.byte_eq_zero_iff hinside.1).1 hzero
        rwa [hhigh, hlow] at this
      rcases ih with ⟨busy, hrun, hle, hlt, hset, habove⟩ | ⟨hrun, hall⟩
      · refine Or.inl ⟨busy, hrun, hle, by omega, hset, ?_⟩
        intro j hbj hj
        by_cases hskip : stop - 8 ≤ j
        · exact hempty j hskip hj
        · exact habove j hbj (by omega)
      · refine Or.inr ⟨hrun, ?_⟩
        intro j hsj hj
        by_cases hskip : stop - 8 ≤ j
        · exact hempty j hskip hj
        · exact hall j hsj (by omega)
  | case2 stop h hs hinside _ hbit =>
      rw [bit_eq_isSet] at hbit
      refine Or.inl ⟨stop - 1, rfl, by omega, by omega, hbit, ?_⟩
      intro j hbj hj
      omega
  | case3 stop h hs hinside _ hbit ih =>
      rw [bit_eq_isSet] at hbit
      have hclear : map.isSet (stop - 1) = false := Bool.eq_false_of_not_eq_true hbit
      rcases ih with ⟨busy, hrun, hle, hlt, hset, habove⟩ | ⟨hrun, hall⟩
      · refine Or.inl ⟨busy, hrun, hle, by omega, hset, ?_⟩
        intro j hbj hj
        by_cases hlast : j = stop - 1
        · rw [hlast]
          exact hclear
        · exact habove j hbj (by omega)
      · refine Or.inr ⟨hrun, ?_⟩
        intro j hsj hj
        by_cases hlast : j = stop - 1
        · rw [hlast]
          exact hclear
        · exact hall j hsj (by omega)
  | case4 stop h hs =>
      refine Or.inr ⟨rfl, ?_⟩
      intro j hsj hj
      omega

/-! ## First fit -/

/-- A used unit below the end of a free run lies below the run. -/
theorem Fits.lt_of_isSet
    {map : Bitmap} {count align t i : Nat} (ht : map.Fits count align t)
    (hset : map.isSet i = true) (hi : i < t + count) : i < t := by
  by_contra hle
  rw [ht.clear i (Nat.le_of_not_lt hle) hi] at hset
  exact Bool.false_ne_true hset

/-- A fitting run starts at or above the first aligned place behind a stretch of
used units. -/
theorem Fits.start_le
    {map : Bitmap} {count align low free t : Nat}
    (ht : map.Fits count align t) (hcount : 0 < count) (halign : 0 < align)
    (hlow : low ≤ t) (hused : ∀ j, low ≤ j → j < free → map.isSet j = true) :
    ceilDiv free align * align ≤ t := by
  apply ceilDiv_mul_le halign ht.aligned
  by_contra hlt
  have hset := hused t hlow (Nat.lt_of_not_le hlt)
  exact Nat.lt_irrefl t (ht.lt_of_isSet hset (by omega))

theorem firstAligned_eq
    {map : Bitmap} {align low free : Nat} (hunits : map.units ≤ maxUnits) (halign : 0 < align)
    (halign' : align ≤ maxUnits) (hfree : map.firstClearFrom low = .ok (some free)) :
    Word.nextMultipleOf free align = .ok (ceilDiv free align * align) := by
  have hlt := (firstClearFrom_spec hunits hfree).2.1
  have hmax := maxUnits_add_maxUnits
  exact Word.nextMultipleOf_eq halign (by omega)

/-- The search finds the least start at or above `low`. -/
theorem findRun_cases
    (map : Bitmap) {count align : Nat} (hunits : map.units ≤ maxUnits)
    (hcount : 0 < count) (halign : 0 < align) (halign' : align ≤ maxUnits) (low : Nat) :
    (∃ start, map.findRun count align low = .ok (some start) ∧ low ≤ start ∧
      map.Fits count align start ∧ ∀ t, low ≤ t → map.Fits count align t → start ≤ t) ∨
    (map.findRun count align low = .ok none ∧
      ∀ t, low ≤ t → ¬ map.Fits count align t) := by
  fun_induction findRun map count align low with
  | case1 low failure hfree =>
      rcases map.firstClearFrom_cases hunits low with ⟨_, hrun, _⟩ | ⟨hrun, _⟩ <;>
        rw [hrun] at hfree <;> cases hfree
  | case2 low hfree =>
      rcases map.firstClearFrom_cases hunits low with ⟨_, hrun, _⟩ | ⟨_, hall⟩
      · rw [hrun] at hfree
        cases hfree
      · refine Or.inr ⟨rfl, ?_⟩
        intro t hlow ht
        have hinside := ht.inside
        exact Nat.lt_irrefl t (ht.lt_of_isSet (hall t hlow (by omega)) (by omega))
  | case3 low free hfree failure hstart =>
      rw [firstAligned_eq hunits halign halign' hfree] at hstart
      cases hstart
  | case4 low free hfree start hstart hfits hnone =>
      obtain ⟨hle, -, hused⟩ := firstClearFrom_spec hunits hfree
      rw [firstAligned_eq hunits halign halign' hfree] at hstart
      cases hstart
      rcases map.lastSetIn_cases _ _ hfits with ⟨_, hrun, _⟩ | ⟨_, hclear⟩
      · rw [hrun] at hnone
        cases hnone
      · refine Or.inl ⟨_, rfl, Nat.le_trans hle (le_ceilDiv_mul free halign),
          ⟨Nat.dvd_mul_left _ _, hfits, hclear⟩, ?_⟩
        intro t hlow ht
        exact ht.start_le hcount halign hlow hused
  | case5 low free hfree start hstart hfits busy hbusy ih =>
      obtain ⟨hle, -, hused⟩ := firstClearFrom_spec hunits hfree
      rw [firstAligned_eq hunits halign halign' hfree] at hstart
      cases hstart
      have hset : map.isSet busy = true := by
        rcases map.lastSetIn_cases _ _ hfits with ⟨_, hrun, _, _, hset, _⟩ | ⟨hrun, _⟩ <;>
          rw [hrun] at hbusy <;> cases hbusy
        exact hset
      -- a window that starts at or before the used unit `busy` holds it
      have hskip : ∀ t, low ≤ t → map.Fits count align t → busy + 1 ≤ t := by
        intro t hlow ht
        have hstart_le := ht.start_le hcount halign hlow hused
        have hstop := lt_of_lastSetIn hbusy
        exact ht.lt_of_isSet hset (by omega)
      have hbusy_le := le_of_lastSetIn hbusy
      have hfree_le := le_ceilDiv_mul free halign
      rcases ih with ⟨start', hrun, hle', hfits', hleast⟩ | ⟨hrun, hnone⟩
      · refine Or.inl ⟨start', hrun, by omega, hfits', ?_⟩
        intro t hlow ht
        exact hleast t (hskip t hlow ht) ht
      · refine Or.inr ⟨hrun, ?_⟩
        intro t hlow ht
        exact hnone t (hskip t hlow ht) ht
  | case6 low free hfree start hstart hfits =>
      obtain ⟨-, -, hused⟩ := firstClearFrom_spec hunits hfree
      rw [firstAligned_eq hunits halign halign' hfree] at hstart
      cases hstart
      refine Or.inr ⟨rfl, ?_⟩
      intro t hlow ht
      have hstart_le := ht.start_le hcount halign hlow hused
      have hinside := ht.inside
      omega

/-- Allocation takes the least fitting run, and refuses only if none fits. -/
theorem allocAligned_cases
    (map : Bitmap) {count align : Nat} (hunits : map.units ≤ maxUnits)
    (hcount : 0 < count) (hpow : align.isPowerOfTwo) (halign : align ≤ maxUnits) :
    (∃ start, IsLeast {t | map.Fits count align t} start ∧
      ∃ h : start + count ≤ map.units,
        (allocAligned count align).perform map =
          (.ok start, map.fill start (start + count) h true)) ∨
    ((∀ t, ¬ map.Fits count align t) ∧
      (allocAligned count align).perform map = (.refuse .outOfMemory, map)) := by
  have hne : count ≠ 0 := by omega
  rw [allocAligned, Section.perform_get_bind, if_neg hne, if_neg (not_not.2 hpow)]
  by_cases hlarge : map.units < count
  · refine Or.inr ⟨?_, ?_⟩
    · intro t ht
      have hinside := ht.inside
      omega
    · rw [if_pos hlarge]
      rfl
  · rw [if_neg hlarge]
    rcases map.findRun_cases hunits hcount (Nat.pos_of_isPowerOfTwo hpow) halign 0 with
      ⟨start, hrun, _, hfits, hleast⟩ | ⟨hrun, hnone⟩
    · refine Or.inl ⟨start, ⟨hfits, fun t ht => hleast t (Nat.zero_le t) ht⟩, hfits.inside, ?_⟩
      rw [Section.perform_lift_bind_ok _ _ hrun]
      exact Section.perform_bind_ok (map.perform_setRange_of_le hfits.inside true)
    · refine Or.inr ⟨fun t ht => hnone t (Nat.zero_le t) ht, ?_⟩
      rw [Section.perform_lift_bind_ok _ _ hrun]
      rfl

end Bitmap

end KernelMemory
