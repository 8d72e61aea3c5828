import KernelMemory.DirectMap
import KernelMemory.Proofs.FramePool.Frames

/-!
# The image of a pool

Where a direct map shows the frames of a pool.  A map `Spans` a pool if its
image does not wrap, and `Reaches` it if no byte of it is shown at the null
pointer.  A pool that is reached is spanned, so the two differ only for an image
that starts at the null pointer: clients can see such a pool, but the heap
cannot view its first bytes.
-/

namespace KernelMemory.DirectMap

/-- The frames of a pool are shown without a wrap, if need be up to the end of
virtual memory. -/
def Spans (map : DirectMap) (pool : FramePool) : Prop :=
  (map.toVirtual pool.base).val.toNat + 4096 * pool.totalFrames ≤ UInt64.size

/-- No byte of the frames of a pool is shown at the null pointer. -/
def Reaches (map : DirectMap) (pool : FramePool) : Prop :=
  ∀ pa : PhysAddr, pool.base.val.toNat ≤ pa.val.toNat →
    pa.val.toNat < pool.frameStart pool.totalFrames → (map.toVirtual pa).isNull = false

variable {map : DirectMap} {pool pool' : FramePool} {pa : PhysAddr}

theorem toNat_toVirtual (map : DirectMap) (pa : PhysAddr) :
    (map.toVirtual pa).val.toNat = (pa.val.toNat + map.offset.toNat) % 2 ^ 64 := by
  rw [toVirtual, UInt64.toNat_add]

theorem isNull_eq_false_iff :
    (map.toVirtual pa).isNull = false ↔ (map.toVirtual pa).val.toNat ≠ 0 := by
  rw [Address.isNull, beq_eq_false_iff_ne, ne_eq, ← UInt64.toNat_inj, UInt64.toNat_zero]

/-- Inside a pool that is shown without a wrap, distances are kept. -/
theorem Spans.toNat_toVirtual
    (h : map.Spans pool) (hlow : pool.base.val.toNat ≤ pa.val.toNat)
    (hhigh : pa.val.toNat < pool.frameStart pool.totalFrames) :
    (map.toVirtual pa).val.toNat =
      (map.toVirtual pool.base).val.toNat + (pa.val.toNat - pool.base.val.toNat) := by
  have hsize : UInt64.size = 2 ^ 64 := rfl
  rw [FramePool.frameStart] at hhigh
  rw [Spans] at h
  simp only [DirectMap.toNat_toVirtual] at h ⊢
  omega

/-- A range that is shown nowhere at the null pointer is shown without a
wrap. -/
theorem Reaches.spans (h : map.Reaches pool) (hpool : pool.Sound) : map.Spans pool := by
  have hsize : UInt64.size = 2 ^ 64 := rfl
  have hstop := hpool.frameStart_lt (Nat.le_refl _)
  have hbase := pool.base.val.toNat_lt
  rw [FramePool.frameStart] at hstop
  rw [Spans, DirectMap.toNat_toVirtual]
  by_contra hwraps
  -- the byte at which the image comes round to the null pointer
  obtain ⟨k, hk⟩ : ∃ k, k = pool.base.val.toNat +
    (2 ^ 64 - (pool.base.val.toNat + map.offset.toNat) % 2 ^ 64) := ⟨_, rfl⟩
  have hk' : (⟨UInt64.ofNat k⟩ : PhysAddr).val.toNat = k :=
    UInt64.toNat_ofNat_of_lt' (by omega)
  have hnull := h ⟨UInt64.ofNat k⟩ (by omega) (by rw [FramePool.frameStart]; omega)
  rw [isNull_eq_false_iff, DirectMap.toNat_toVirtual, hk'] at hnull
  omega

/-- A pool whose image neither starts at the null pointer nor wraps. -/
theorem Spans.reaches (h : map.Spans pool) (hnull : (map.toVirtual pool.base).isNull = false) :
    map.Reaches pool := by
  intro pa hlow hhigh
  rw [isNull_eq_false_iff] at hnull ⊢
  rw [h.toNat_toVirtual hlow hhigh]
  omega

theorem reaches_iff (hpool : pool.Sound) (hpos : 0 < pool.totalFrames) :
    map.Reaches pool ↔ (map.toVirtual pool.base).isNull = false ∧ map.Spans pool := by
  constructor
  · intro h
    refine ⟨h pool.base (Nat.le_refl _) ?_, h.spans hpool⟩
    rw [FramePool.frameStart]
    omega
  · rintro ⟨hnull, hspans⟩
    exact hspans.reaches hnull

theorem Reaches.of_range
    (h : map.Reaches pool) (hbase : pool'.base = pool.base)
    (htotal : pool'.totalFrames = pool.totalFrames) : map.Reaches pool' := by
  intro pa hlow hhigh
  rw [FramePool.frameStart, hbase, htotal] at hhigh
  exact h pa (hbase ▸ hlow) hhigh

theorem Reaches.shows
    (h : map.Reaches pool) (hpool : pool.Sound) {n : ℕ} (hpos : 0 < n)
    (hlow : pool.base.val.toNat ≤ pa.val.toNat)
    (hhigh : pa.val.toNat + n ≤ pool.frameStart pool.totalFrames) (hn : n < UInt64.size / 2) :
    map.Shows pa n := by
  have hspans := h.spans hpool
  refine ⟨h pa hlow (by omega), hn, ?_⟩
  rw [hspans.toNat_toVirtual hlow (by omega)]
  rw [Spans] at hspans
  rw [FramePool.frameStart] at hhigh
  omega

end KernelMemory.DirectMap
