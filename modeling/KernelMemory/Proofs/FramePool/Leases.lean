import KernelMemory.FramePool.Lease
import KernelMemory.Proofs.FramePool.Frames
import KernelMemory.Proofs.Program.Solo

/-!
# Leasing and returning frames

What each operation of a well-formed frame pool yields.  A lease takes the
lowest free run that is long enough; a return and a reservation succeed exactly
for the runs of managed frames that are leased, or free, as a whole.  A refused
operation leaves the pool as it was.
-/

namespace KernelMemory.FramePool

open Finset Program

variable {pool : FramePool} {locks : Locks LockName} {count : ℕ} {pa : PhysAddr}

/-- The runs that can be returned: managed, not empty and leased as a whole. -/
structure Returnable (pool : FramePool) (pa : PhysAddr) (count index : ℕ) : Prop where
  frame : pool.frameIndex? pa = some index
  pos : 0 < count
  inside : index + count ≤ pool.bitmap.units
  leased : Ico index (index + count) ⊆ pool.leasedFrames

/-- The runs that can be reserved: managed, not empty and free as a whole. -/
structure Reservable (pool : FramePool) (pa : PhysAddr) (count index : ℕ) : Prop where
  frame : pool.frameIndex? pa = some index
  pos : 0 < count
  inside : index + count ≤ pool.bitmap.units
  free : Disjoint pool.leasedFrames (Ico index (index + count))

theorem disjoint_of_fits {index : ℕ} (h : pool.bitmap.Fits count 1 index) :
    Disjoint pool.leasedFrames (Ico index (index + count)) := by
  rw [disjoint_left]
  intro i hi hrun
  rw [mem_Ico] at hrun
  have hset := (mem_leasedFrames.1 hi).2
  rw [h.clear i hrun.1 hrun.2] at hset
  exact absurd hset Bool.false_ne_true

/-- Returning frames that were free undoes leasing them. -/
theorem returning_leasing
    {pool' : FramePool} {index first n : ℕ} (hfits : pool.bitmap.Fits count 1 index)
    {h : index + count ≤ pool.bitmap.units} (hpool' : pool' = pool.leasing index count h)
    (hfirst : first = index) (hn : n = count) (h' : first + n ≤ pool'.bitmap.units) :
    pool'.returning first n h' = pool := by
  subst hpool' hfirst hn
  have hbitmap := pool.bitmap.fill_fill_of_clear h h' hfits.clear
  have hcounter : pool.allocated.value + UInt64.ofNat n - UInt64.ofNat n =
      pool.allocated.value := UInt64.add_sub_cancel _ _
  calc
    (pool.leasing first n h).returning first n h' =
        ⟨pool.base, pool.totalMemory,
          (pool.bitmap.fill first (first + n) h true).fill first (first + n) h' false,
          ⟨pool.allocated.value + UInt64.ofNat n - UInt64.ofNat n⟩⟩ := rfl
    _ = pool := by rw [hbitmap, hcounter]

theorem Sound.isLeast_fits
    (hpool : pool.Sound) (hleased : pool.leasedFrames = ∅) (hcount : count ≤ pool.totalFrames) :
    IsLeast {t | pool.bitmap.Fits count 1 t} 0 := by
  refine ⟨⟨one_dvd _, ?_, fun i hi hi' => ?_⟩, fun t _ => Nat.zero_le t⟩
  · rw [hpool.units]
    omega
  · have hunit : i < pool.bitmap.units := by
      rw [hpool.units]
      omega
    exact isSet_eq_false_of_leasedFrames_eq_empty hleased hunit

/-! ## Sections -/

theorem perform_claim_cases (hpool : pool.Sound) (hcount : 0 < count) :
    (∃ index, IsLeast {t | pool.bitmap.Fits count 1 t} index ∧
      ∃ h : index + count ≤ pool.bitmap.units,
        (claim count).perform pool = (.ok index, pool.leasing index count h)) ∨
    ((∀ t, ¬ pool.bitmap.Fits count 1 t) ∧
      (claim count).perform pool = (.refuse .outOfMemory, pool)) := by
  have hone : (1 : ℕ) ≤ Bitmap.maxUnits := by decide
  rcases pool.bitmap.allocAligned_cases hpool.units_le_maxUnits hcount Nat.isPowerOfTwo_one
      hone with ⟨index, hleast, h, halloc⟩ | ⟨hnone, halloc⟩
  · refine Or.inl ⟨index, hleast, h, ?_⟩
    exact Section.perform_bind_ok (Section.perform_zoom_of halloc)
  · exact Or.inr ⟨hnone, Section.perform_bind_error (Section.perform_zoom_of halloc)⟩

theorem perform_claim_zero :
    (claim 0).perform pool = (.refuse (.invalidArgument .emptyRun), pool) := by
  apply Section.perform_bind_error
  rw [onBitmap, Section.perform_zoom]
  rfl

theorem perform_reclaim_of_leased
    {index : ℕ} (hcount : 0 < count) (h : index + count ≤ pool.bitmap.units)
    (hleased : Ico index (index + count) ⊆ pool.leasedFrames) :
    (reclaim index count).perform pool = (.ok true, pool.returning index count h) := by
  have hall : pool.bitmap.allSet index (index + count) h = true := by
    rw [Bitmap.allSet_eq_true_iff]
    intro i hlow hhigh
    exact (mem_leasedFrames.1 (hleased (mem_Ico.2 ⟨hlow, hhigh⟩))).2
  have hguard : ¬ (count = 0 ∨
      (pool.bitmap.isRangeSet index count).valueOr false = false) := by
    rw [Bitmap.isRangeSet_of_le _ h, hall]
    simp [Result.valueOr]
    omega
  rw [reclaim, Section.perform_get_bind]
  simp only [if_neg hguard]
  exact Section.perform_bind_ok
    (Section.perform_zoom_of (pool.bitmap.perform_setRange_of_le h false))

theorem perform_reclaim_of_not
    {index : ℕ}
    (h : ¬ (0 < count ∧ index + count ≤ pool.bitmap.units ∧
      Ico index (index + count) ⊆ pool.leasedFrames)) :
    (reclaim index count).perform pool = (.ok false, pool) := by
  have hguard : count = 0 ∨
      (pool.bitmap.isRangeSet index count).valueOr false = false := by
    by_contra hnot
    rw [not_or] at hnot
    apply h
    by_cases hinside : index + count ≤ pool.bitmap.units
    · have hall : pool.bitmap.allSet index (index + count) hinside = true := by
        have := hnot.2
        rw [Bitmap.isRangeSet_of_le _ hinside] at this
        simpa [Result.valueOr] using this
      refine ⟨Nat.pos_of_ne_zero hnot.1, hinside, ?_⟩
      intro i hi
      rw [mem_Ico] at hi
      rw [Bitmap.allSet_eq_true_iff] at hall
      exact mem_leasedFrames.2 ⟨by omega, hall i hi.1 hi.2⟩
    · exfalso
      apply hnot.2
      rw [Bitmap.isRangeSet, dif_neg hinside]
      rfl
  rw [reclaim, Section.perform_get_bind]
  simp only [if_pos hguard]
  rfl

theorem any_test_eq_true_iff
    {index : ℕ} (h : index + count ≤ pool.bitmap.units) :
    Nat.any count (fun k _ => (pool.bitmap.test (index + k)).valueOr true) = true ↔
      ∃ i, index ≤ i ∧ i < index + count ∧ pool.bitmap.isSet i = true := by
  induction count with
  | zero =>
      simp only [Nat.any_zero, Bool.false_eq_true, false_iff, not_exists, not_and]
      intro i hlow hhigh
      omega
  | succ n ih =>
      have hlast : index + n < pool.bitmap.units := by omega
      rw [Nat.any_succ, Bool.or_eq_true, ih (by omega), Bitmap.test_of_lt _ hlast]
      constructor
      · rintro (⟨i, hlow, hhigh, hset⟩ | hset)
        · exact ⟨i, hlow, by omega, hset⟩
        · exact ⟨index + n, by omega, by omega, hset⟩
      · rintro ⟨i, hlow, hhigh, hset⟩
        by_cases hi : i = index + n
        · exact Or.inr (hi ▸ hset)
        · exact Or.inl ⟨i, hlow, by omega, hset⟩

theorem perform_occupy_of_free
    (hpool : pool.Sound) {index : ℕ} (hcount : 0 < count)
    (h : index + count ≤ pool.bitmap.units)
    (hfree : Disjoint pool.leasedFrames (Ico index (index + count))) :
    (occupy index count).perform pool = (.ok (), pool.leasing index count h) := by
  have hrange : ¬ (count = 0 ∨ pool.totalFrames < index + count) := by
    rw [← hpool.units]
    omega
  have hany : Nat.any count (fun k _ => (pool.bitmap.test (index + k)).valueOr true) = false := by
    rw [← Bool.not_eq_true, any_test_eq_true_iff h]
    rintro ⟨i, hlow, hhigh, hset⟩
    exact disjoint_left.1 hfree (mem_leasedFrames.2 ⟨by omega, hset⟩) (mem_Ico.2 ⟨hlow, hhigh⟩)
  rw [occupy, Section.perform_get_bind]
  simp only [if_neg hrange, hany, Bool.false_eq_true, ↓reduceIte]
  exact Section.perform_bind_ok
    (Section.perform_zoom_of (pool.bitmap.perform_setRange_of_le h true))

theorem perform_occupy_of_outside
    (hpool : pool.Sound) {index count : ℕ} (h : ¬ (0 < count ∧ index + count ≤ pool.bitmap.units)) :
    (occupy index count).perform pool =
      (.refuse (.invalidArgument .reservationOutside), pool) := by
  have hrange : count = 0 ∨ pool.totalFrames < index + count := by
    rw [← hpool.units]
    omega
  rw [occupy, Section.perform_get_bind, if_pos hrange]
  rfl

theorem perform_occupy_of_busy
    (hpool : pool.Sound) {index : ℕ} (hcount : 0 < count)
    (h : index + count ≤ pool.bitmap.units)
    (hbusy : ¬ Disjoint pool.leasedFrames (Ico index (index + count))) :
    (occupy index count).perform pool =
      (.refuse (.invalidArgument .reservationOverlaps), pool) := by
  have hrange : ¬ (count = 0 ∨ pool.totalFrames < index + count) := by
    rw [← hpool.units]
    omega
  have hany : Nat.any count (fun k _ => (pool.bitmap.test (index + k)).valueOr true) = true := by
    obtain ⟨i, hi, hrun⟩ := not_disjoint_iff.1 hbusy
    rw [mem_Ico] at hrun
    exact (any_test_eq_true_iff h).2 ⟨i, hrun.1, hrun.2, (mem_leasedFrames.1 hi).2⟩
  rw [occupy, Section.perform_get_bind, if_neg hrange, if_pos hany]
  rfl

/-! ## Operations -/

/-- A lease takes the lowest free run, and is refused only if there is none. -/
theorem lease_cases
    (hpool : pool.Sound) (hfree : locks.IsFree .frames) (hcount : 0 < count) :
    (∃ index, IsLeast {t | pool.bitmap.Fits count 1 t} index ∧
      ∃ h : index + count ≤ pool.bitmap.units, ∃ pa : PhysAddr,
        pa.val.toNat = pool.frameStart index ∧
        (lease count).Yields locks pool (.ok pa) (pool.leasing index count h)) ∨
    ((∀ t, ¬ pool.bitmap.Fits count 1 t) ∧
      (lease count).Yields locks pool (.refuse .outOfMemory) pool) := by
  rcases perform_claim_cases hpool hcount with ⟨index, hleast, h, hclaim⟩ | ⟨hnone, hclaim⟩
  · have hindex : index < pool.totalFrames := by
      rw [← hpool.units]
      omega
    obtain ⟨pa, haddress, hpa⟩ := hpool.addressOf_eq hindex
    refine Or.inl ⟨index, hleast, h, pa, hpa, ?_⟩
    refine ((yields_critical hclaim).withLock hfree).outcome_ok.bind ?_
    refine (yields_inspect _).bind ?_
    have haddress' : (pool.leasing index count h).addressOf index = .ok pa := haddress
    rw [haddress']
    exact (yields_ofResult _).bind ((yields_report _).bind (yields_pure pa))
  · refine Or.inr ⟨hnone, ?_⟩
    refine ((yields_critical hclaim).withLock hfree).outcome_refused.bind ?_
    exact (yields_report _).bind (yields_refuse _)

theorem lease_zero (hfree : locks.IsFree .frames) :
    (lease 0).Yields locks pool (.refuse (.invalidArgument .emptyRun)) pool :=
  ((yields_critical perform_claim_zero).withLock hfree).outcome_refused.bind (yields_refuse _)

/-- A return succeeds exactly for the runs that can be returned. -/
theorem giveBack_of_returnable
    {index : ℕ} (hfree : locks.IsFree .frames) (h : pool.Returnable pa count index) :
    (giveBack pa count).Yields locks pool (.ok ()) (pool.returning index count h.inside) := by
  refine (yields_inspect _).bind ?_
  rw [h.frame]
  have hreclaim := perform_reclaim_of_leased h.pos h.inside h.leased
  exact ((yields_critical hreclaim).withLock hfree).bind (yields_report _)

theorem giveBack_of_not
    (hfree : locks.IsFree .frames) (h : ∀ index, ¬ pool.Returnable pa count index) :
    (giveBack pa count).Yields locks pool (.refuse (.invalidFree pa)) pool := by
  refine (yields_inspect _).bind ?_
  cases hframe : pool.frameIndex? pa with
  | none => exact (yields_report _).bind (yields_refuse _)
  | some index =>
      have hreclaim : (reclaim index count).perform pool = (.ok false, pool) :=
        perform_reclaim_of_not fun hall => h index ⟨hframe, hall.1, hall.2.1, hall.2.2⟩
      refine ((yields_critical hreclaim).withLock hfree).bind ?_
      exact (yields_report _).bind (yields_refuse _)

/-- A reservation succeeds exactly for the runs that can be reserved. -/
theorem reserve_of_reservable
    {index : ℕ} (hpool : pool.Sound) (hfree : locks.IsFree .frames)
    (h : pool.Reservable pa count index) :
    (reserve pa count).Yields locks pool (.ok ()) (pool.leasing index count h.inside) := by
  refine (yields_inspect _).bind ?_
  rw [h.frame]
  have hoccupy := perform_occupy_of_free hpool h.pos h.inside h.free
  exact ((yields_critical hoccupy).withLock hfree).bind (yields_report _)

theorem reserve_of_outside
    (hpool : pool.Sound) (hfree : locks.IsFree .frames)
    (h : ∀ index, pool.frameIndex? pa = some index →
      ¬ (0 < count ∧ index + count ≤ pool.bitmap.units)) :
    (reserve pa count).Yields locks pool
      (.refuse (.invalidArgument .reservationOutside)) pool := by
  refine (yields_inspect _).bind ?_
  cases hframe : pool.frameIndex? pa with
  | none => exact yields_refuse _
  | some index =>
      have hoccupy := perform_occupy_of_outside hpool (h index hframe)
      exact ((yields_critical hoccupy).withLock hfree).bind_error

theorem reserve_of_busy
    {index : ℕ} (hpool : pool.Sound) (hfree : locks.IsFree .frames)
    (hframe : pool.frameIndex? pa = some index) (hcount : 0 < count)
    (h : index + count ≤ pool.bitmap.units)
    (hbusy : ¬ Disjoint pool.leasedFrames (Ico index (index + count))) :
    (reserve pa count).Yields locks pool
      (.refuse (.invalidArgument .reservationOverlaps)) pool := by
  refine (yields_inspect _).bind ?_
  rw [hframe]
  have hoccupy := perform_occupy_of_busy hpool hcount h hbusy
  exact ((yields_critical hoccupy).withLock hfree).bind_error

theorem reserve_of_not
    (hpool : pool.Sound) (hfree : locks.IsFree .frames)
    (h : ∀ index, ¬ pool.Reservable pa count index) :
    ∃ why, (reserve pa count).Yields locks pool (.refuse (.invalidArgument why)) pool := by
  by_cases hmanaged : ∃ index, pool.frameIndex? pa = some index ∧
      0 < count ∧ index + count ≤ pool.bitmap.units
  · obtain ⟨index, hframe, hcount, hinside⟩ := hmanaged
    exact ⟨_, reserve_of_busy hpool hfree hframe hcount hinside
      fun hdisjoint => h index ⟨hframe, hcount, hinside, hdisjoint⟩⟩
  · exact ⟨_, reserve_of_outside hpool hfree fun index hframe hrun =>
      hmanaged ⟨index, hframe, hrun⟩⟩

theorem stats_yields (hpool : pool.Sound) (hfree : locks.IsFree .frames) :
    stats.Yields locks pool
      (.ok {
        total := pool.totalFrames
        allocated := pool.leasedFrames.card
        free := pool.totalFrames - pool.leasedFrames.card }) pool := by
  refine Yields.withLock hfree (yields_critical ?_)
  rw [Section.perform_get_bind, Section.perform_lift, hpool.usage_eq]

end KernelMemory.FramePool
