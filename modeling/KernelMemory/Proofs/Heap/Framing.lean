import KernelMemory.Proofs.FramePool.Image
import KernelMemory.Proofs.FramePool.Leases
import KernelMemory.Proofs.Heap.Table

/-!
# Regions and the frames under them

What the heap keeps with any memory content: its regions lie on disjoint runs
of leased frames, every other leased frame belongs to somebody else, and no
region is known to hold more than it can.  `Arena.Framed` says this of an arena
and the set of frames that others hold; the lemmas after it say how each change
of the table or of the pool keeps it.
-/

namespace KernelMemory

open Finset RegionTable

/-! ## The frames of a region -/

namespace Region

variable (region : Region) (pool : FramePool)

def firstFrame : ℕ := (region.start - pool.base.val.toNat) / 4096

def frameRun : Finset ℕ := Ico (region.firstFrame pool) (region.firstFrame pool + region.frames)

/-- A region on whole frames of a pool. -/
structure OnFrames : Prop where
  start_eq : region.start = pool.frameStart (region.firstFrame pool)
  inside : region.firstFrame pool + region.frames ≤ pool.totalFrames

theorem card_frameRun : (region.frameRun pool).card = region.frames := by
  rw [frameRun, Nat.card_Ico, Nat.add_sub_cancel_left]

variable {region pool}

theorem firstFrame_eq {index : ℕ} (h : region.start = pool.frameStart index) :
    region.firstFrame pool = index := by
  rw [firstFrame, h, FramePool.frameStart]
  omega

theorem OnFrames.of_start
    {index : ℕ} (hstart : region.start = pool.frameStart index)
    (hinside : index + region.frames ≤ pool.totalFrames) : region.OnFrames pool := by
  have hfirst := firstFrame_eq hstart
  exact ⟨by rw [hfirst, hstart], by rwa [hfirst]⟩

theorem OnFrames.stop_eq (h : region.OnFrames pool) :
    region.stop = pool.frameStart (region.firstFrame pool + region.frames) := by
  rw [stop, h.start_eq, FramePool.frameStart, FramePool.frameStart]
  omega

theorem OnFrames.addressable
    (h : region.OnFrames pool) (hpool : pool.Sound) (hpos : 0 < region.frames) :
    region.Addressable where
  frames_pos := hpos
  aligned := by
    rw [h.start_eq, FramePool.frameStart]
    have := hpool.aligned
    omega
  stop_lt := by
    rw [h.stop_eq]
    exact hpool.frameStart_lt h.inside

/-- A region on frames that a direct map reaches has its maps in view. -/
theorem OnFrames.visible
    {map : DirectMap} (h : region.OnFrames pool) (hpool : pool.Sound)
    (hreaches : map.Reaches pool) (hpos : 0 < region.frames) : region.Visible map := by
  have hstop := hpool.frameStart_lt h.inside
  have hinside := h.inside
  have hstart := h.start_eq
  have hsize : UInt64.size = 2 ^ 64 := rfl
  simp only [start, FramePool.frameStart] at hstart hstop
  apply hreaches.shows hpool
  · rw [mapBytes_eq]
    omega
  · omega
  · rw [mapBytes_eq, FramePool.frameStart]
    omega
  · rw [mapBytes_eq]
    omega

theorem frameRun_congr {a b : Region} (hbase : a.base = b.base) (hframes : a.frames = b.frames) :
    a.frameRun pool = b.frameRun pool := by
  rw [frameRun, frameRun, firstFrame, firstFrame, start, start, hbase, hframes]

theorem OnFrames.congr
    {a b : Region} (hbase : a.base = b.base) (hframes : a.frames = b.frames)
    (h : a.OnFrames pool) : b.OnFrames pool := by
  have hfirst : a.firstFrame pool = b.firstFrame pool := by
    rw [firstFrame, firstFrame, start, start, hbase]
  refine ⟨?_, ?_⟩
  · rw [← hfirst, ← h.start_eq, start, start, hbase]
  · rw [← hfirst, ← hframes]
    exact h.inside

theorem frameRun_of_base {pool' : FramePool} (hbase : pool'.base = pool.base) :
    region.frameRun pool' = region.frameRun pool := by
  rw [frameRun, frameRun, firstFrame, firstFrame, hbase]

theorem OnFrames.of_range
    {pool' : FramePool} (h : region.OnFrames pool) (hbase : pool'.base = pool.base)
    (htotal : pool'.totalFrames = pool.totalFrames) : region.OnFrames pool' := by
  have hfirst : region.firstFrame pool' = region.firstFrame pool := by
    rw [firstFrame, firstFrame, hbase]
  refine ⟨?_, ?_⟩
  · rw [h.start_eq, hfirst, FramePool.frameStart, FramePool.frameStart, hbase]
  · rw [hfirst, htotal]
    exact h.inside

theorem apart_of_disjoint
    {a b : Region} (ha : a.OnFrames pool) (hb : b.OnFrames pool)
    (hapos : 0 < a.frames) (hbpos : 0 < b.frames)
    (h : Disjoint (a.frameRun pool) (b.frameRun pool)) :
    a.stop ≤ b.start ∨ b.stop ≤ a.start := by
  rw [ha.stop_eq, hb.stop_eq, ha.start_eq, hb.start_eq]
  simp only [FramePool.frameStart]
  by_contra hmeet
  have hmax : max (a.firstFrame pool) (b.firstFrame pool) ∈ a.frameRun pool ∧
      max (a.firstFrame pool) (b.firstFrame pool) ∈ b.frameRun pool := by
    simp only [frameRun, mem_Ico]
    omega
  exact disjoint_left.1 h hmax.1 hmax.2

/-- The frame that holds an address of a region is one of the region's. -/
theorem OnFrames.mem_frameRun
    (h : region.OnFrames pool) {pa : PhysAddr} {i : ℕ} (hin : region.Contains pa)
    (hlow : pool.frameStart i ≤ pa.val.toNat) (hhigh : pa.val.toNat < pool.frameStart (i + 1)) :
    i ∈ region.frameRun pool := by
  obtain ⟨hstart, hstop⟩ := hin
  rw [h.start_eq] at hstart
  rw [h.stop_eq] at hstop
  simp only [FramePool.frameStart] at hstart hstop hlow hhigh
  rw [frameRun, mem_Ico]
  omega

theorem OnFrames.exists_frame
    (h : region.OnFrames pool) {pa : PhysAddr} (hin : region.Contains pa) :
    ∃ i ∈ region.frameRun pool,
      pool.frameStart i ≤ pa.val.toNat ∧ pa.val.toNat < pool.frameStart (i + 1) := by
  obtain ⟨hstart, hstop⟩ := hin
  rw [h.start_eq] at hstart
  rw [h.stop_eq] at hstop
  simp only [FramePool.frameStart] at hstart hstop ⊢
  refine ⟨(pa.val.toNat - pool.base.val.toNat) / 4096, ?_, by omega, by omega⟩
  rw [frameRun, mem_Ico]
  omega

end Region

/-! ## The invariant -/

namespace Arena

/-- The table's regions lie on leased frames of their own, which the heap can
see; the other leased frames are those in `outside`. -/
structure Framed (arena : Arena) (outside : Finset ℕ) : Prop where
  sound : arena.frames.Sound
  reaches : arena.heap.map.Reaches arena.frames
  slots : arena.heap.regions.length = Parameters.maxHeapRegions
  valid : ∀ slot region, Has arena.heap.regions slot region → region.Valid
  onFrames : ∀ slot region, Has arena.heap.regions slot region → region.OnFrames arena.frames
  apart : ∀ i j a b, Has arena.heap.regions i a → Has arena.heap.regions j b → i ≠ j →
    Disjoint (a.frameRun arena.frames) (b.frameRun arena.frames)
  outside_apart : ∀ slot region, Has arena.heap.regions slot region →
    Disjoint outside (region.frameRun arena.frames)
  leased : ∀ i, i ∈ arena.frames.leasedFrames ↔ i ∈ outside ∨
    ∃ slot region, Has arena.heap.regions slot region ∧ i ∈ region.frameRun arena.frames

namespace Framed

variable {arena : Arena} {outside : Finset ℕ} (h : arena.Framed outside)
include h

theorem visible (slot : ℕ) (region : Region) (hhas : Has arena.heap.regions slot region) :
    region.Visible arena.heap.map :=
  (h.onFrames slot region hhas).visible h.sound h.reaches (h.valid slot region hhas).frames_pos

theorem isNull_eq_false_of_contains
    {slot : ℕ} {region : Region} (hhas : Has arena.heap.regions slot region) {pa : PhysAddr}
    (hin : region.Contains pa) : (arena.heap.map.toVirtual pa).isNull = false := by
  have hon := h.onFrames slot region hhas
  have hinside := hon.inside
  obtain ⟨hlow, hhigh⟩ := hin
  rw [hon.start_eq] at hlow
  rw [hon.stop_eq] at hhigh
  rw [FramePool.frameStart] at hlow hhigh
  apply h.reaches pa
  · omega
  · rw [FramePool.frameStart]
    omega

theorem regions_apart
    {i j : ℕ} {a b : Region} (ha : Has arena.heap.regions i a) (hb : Has arena.heap.regions j b)
    (hne : i ≠ j) : a.stop ≤ b.start ∨ b.stop ≤ a.start :=
  Region.apart_of_disjoint (h.onFrames i a ha) (h.onFrames j b hb) (h.valid i a ha).frames_pos
    (h.valid j b hb).frames_pos (h.apart i j a b ha hb hne)

theorem slot_eq_of_contains
    {pa : PhysAddr} (i j : ℕ) (a b : Region)
    (ha : Has arena.heap.regions i a) (hb : Has arena.heap.regions j b)
    (hina : a.Contains pa) (hinb : b.Contains pa) : i = j := by
  by_contra hne
  have hapart := h.regions_apart ha hb hne
  simp only [Region.Contains] at hina hinb
  omega

/-- Two ways to see one address as a unit of a region are the same. -/
theorem unit_eq
    {pa : PhysAddr} {i j a b : ℕ} {r s : Region} (hr : Has arena.heap.regions i r)
    (hs : Has arena.heap.regions j s) (ha : a < r.units) (hb : b < s.units)
    (hpa : pa.val.toNat = r.unitStart a) (hpa' : pa.val.toNat = s.unitStart b) :
    i = j ∧ r = s ∧ a = b := by
  have hij := h.slot_eq_of_contains i j r s hr hs (Region.contains_of_unitStart ha hpa)
    (Region.contains_of_unitStart hb hpa')
  subst hij
  cases hr.unique hs
  rw [Region.unitStart] at hpa hpa'
  exact ⟨rfl, rfl, by omega⟩

theorem outside_subset : outside ⊆ arena.frames.leasedFrames :=
  fun i hi => (h.leased i).2 (Or.inl hi)

theorem frameRun_subset
    {slot : ℕ} {region : Region} (hhas : Has arena.heap.regions slot region) :
    region.frameRun arena.frames ⊆ arena.frames.leasedFrames :=
  fun i hi => (h.leased i).2 (Or.inr ⟨slot, region, hhas, hi⟩)

theorem returnable
    {slot : ℕ} {region : Region} (hhas : Has arena.heap.regions slot region) :
    arena.frames.Returnable region.base region.frames (region.firstFrame arena.frames) where
  frame := by
    have hon := h.onFrames slot region hhas
    have hpos := (h.valid slot region hhas).frames_pos
    have hinside := hon.inside
    rw [h.sound.frameIndex?_eq_some_iff]
    exact ⟨by omega, hon.start_eq⟩
  pos := (h.valid slot region hhas).frames_pos
  inside := by
    rw [h.sound.units]
    exact (h.onFrames slot region hhas).inside
  leased := h.frameRun_subset hhas

/-- The leased frames are the regions' and the others'. -/
theorem card_leasedFrames :
    arena.frames.leasedFrames.card = outside.card + total Region.frames arena.heap.regions := by
  have hcard := card_eq_total (fun region => region.frameRun arena.frames) outside h.apart
    h.outside_apart h.leased
  simpa only [Region.card_frameRun] using hcard

end Framed

/-- Under a heap without regions, every leased frame is somebody else's. -/
theorem framed_of_empty
    {arena : Arena} {map : DirectMap} (hheap : arena.heap = Heap.empty map)
    (hsound : arena.frames.Sound) (hreaches : map.Reaches arena.frames) :
    arena.Framed arena.frames.leasedFrames := by
  have hnone (slot : ℕ) (region : Region) : ¬ Has arena.heap.regions slot region := by
    rw [hheap]
    exact not_has_replicate _
  refine ⟨hsound, ?_, ?_, ?_, ?_, ?_, ?_, fun i => ⟨Or.inl, ?_⟩⟩
  · rwa [hheap]
  · rw [hheap]
    exact List.length_replicate
  · exact fun slot region hhas => absurd hhas (hnone slot region)
  · exact fun slot region hhas => absurd hhas (hnone slot region)
  · exact fun i _ a _ ha => absurd ha (hnone i a)
  · exact fun slot region hhas => absurd hhas (hnone slot region)
  · rintro (hi | ⟨slot, region, hhas, -⟩)
    · exact hi
    · exact absurd hhas (hnone slot region)

/-! ## Changes that keep it -/

theorem within_framesPart
    {arena : Arena} {locks : Locks LockName} {α : Type} {program : Program LockName FramePool α}
    {result : Result α} {pool : FramePool}
    (h : program.Yields locks arena.frames result pool) :
    (program.within framesPart).Yields locks arena result { arena with frames := pool } :=
  h.within (fun frames => { arena with frames }) fun _ => rfl

namespace Framed

variable {arena arena' : Arena} {outside : Finset ℕ} {slot : ℕ} {region : Region}

/-- A region of the table gets another record of what it holds. -/
theorem replace
    (region' : Region) (h : arena.Framed outside) (hhas : Has arena.heap.regions slot region)
    (hbase : region'.base = region.base) (hsize : region'.frames = region.frames)
    (hvalid : region'.Valid) (hframes : arena'.frames = arena.frames)
    (hmap : arena'.heap.map = arena.heap.map)
    (hregions : arena'.heap.regions = arena.heap.regions.set slot (some region')) :
    arena'.Framed outside := by
  -- each slot holds a region with the same frames as before
  have hold : ∀ j r, Has arena'.heap.regions j r →
      ∃ s, Has arena.heap.regions j s ∧ r.base = s.base ∧ r.frames = s.frames ∧ r.Valid := by
    intro j r hr
    rw [hregions, has_set_iff hhas.lt] at hr
    rcases hr with ⟨rfl, hr⟩ | ⟨-, hr⟩
    · cases hr
      exact ⟨region, hhas, hbase, hsize, hvalid⟩
    · exact ⟨r, hr, rfl, rfl, h.valid j r hr⟩
  have hnew : ∀ j s, Has arena.heap.regions j s →
      ∃ r, Has arena'.heap.regions j r ∧ r.base = s.base ∧ r.frames = s.frames := by
    intro j s hs
    by_cases hj : j = slot
    · subst hj
      cases hhas.unique hs
      refine ⟨region', ?_, hbase, hsize⟩
      rw [hregions, has_set_self_iff hhas.lt]
    · refine ⟨s, ?_, rfl, rfl⟩
      rw [hregions, has_set_ne_iff (Ne.symm hj)]
      exact hs
  refine ⟨hframes ▸ h.sound, hframes ▸ hmap ▸ h.reaches, ?_, ?_, ?_, ?_, ?_, ?_⟩
  · rw [hregions, List.length_set, h.slots]
  · intro j r hr
    obtain ⟨s, -, -, -, hvalid⟩ := hold j r hr
    exact hvalid
  · intro j r hr
    obtain ⟨s, hs, hb, hf, -⟩ := hold j r hr
    rw [hframes]
    exact (h.onFrames j s hs).congr hb.symm hf.symm
  · intro i j a b ha hb hne
    obtain ⟨a', ha', hab, haf, -⟩ := hold i a ha
    obtain ⟨b', hb', hbb, hbf, -⟩ := hold j b hb
    rw [hframes, Region.frameRun_congr hab haf, Region.frameRun_congr hbb hbf]
    exact h.apart i j a' b' ha' hb' hne
  · intro j r hr
    obtain ⟨s, hs, hb, hf, -⟩ := hold j r hr
    rw [hframes, Region.frameRun_congr hb hf]
    exact h.outside_apart j s hs
  · intro i
    rw [hframes, h.leased]
    refine or_congr_right ⟨?_, ?_⟩
    · rintro ⟨j, s, hs, hi⟩
      obtain ⟨r, hr, hb, hf⟩ := hnew j s hs
      exact ⟨j, r, hr, by rwa [Region.frameRun_congr hb hf]⟩
    · rintro ⟨j, r, hr, hi⟩
      obtain ⟨s, hs, hb, hf, -⟩ := hold j r hr
      exact ⟨j, s, hs, by rwa [Region.frameRun_congr hb hf] at hi⟩

/-- Frames of others become a region of the table. -/
theorem adoptRegion
    {index : ℕ} (h : arena.Framed outside) (hempty : arena.heap.regions[slot]? = some none)
    (howned : Ico index (index + region.frames) ⊆ outside)
    (hstart : region.start = arena.frames.frameStart index) (hpos : 0 < region.frames)
    (hused : region.used = 0) (hframes : arena'.frames = arena.frames)
    (hmap : arena'.heap.map = arena.heap.map)
    (hregions : arena'.heap.regions = arena.heap.regions.set slot (some region)) :
    arena'.Framed (outside \ Ico index (index + region.frames)) := by
  obtain ⟨hslot, -⟩ := List.getElem?_eq_some_iff.1 hempty
  have hnone (r : Region) : ¬ Has arena.heap.regions slot r := by
    rw [Has, hempty]
    intro hr
    cases hr
  have hrun : region.frameRun arena.frames = Ico index (index + region.frames) := by
    rw [Region.frameRun, Region.firstFrame_eq hstart]
  rw [← hrun] at howned ⊢
  have hon : region.OnFrames arena.frames := by
    refine .of_start hstart ?_
    have hlast : index + region.frames - 1 ∈ region.frameRun arena.frames := by
      rw [hrun, mem_Ico]
      omega
    have hlt := (FramePool.mem_leasedFrames.1 (h.outside_subset (howned hlast))).1
    rw [← h.sound.units]
    omega
  refine ⟨hframes ▸ h.sound, hframes ▸ hmap ▸ h.reaches, ?_, ?_, ?_, ?_, ?_, ?_⟩
  · rw [hregions, List.length_set, h.slots]
  · intro j r hr
    rw [hregions, has_set_iff hslot] at hr
    rcases hr with ⟨-, hr⟩ | ⟨-, hr⟩
    · cases hr
      refine ⟨hon.addressable h.sound hpos, ?_⟩
      have := region.reserved_lt_units hpos
      omega
    · exact h.valid j r hr
  · intro j r hr
    rw [hframes]
    rw [hregions, has_set_iff hslot] at hr
    rcases hr with ⟨-, hr⟩ | ⟨-, hr⟩
    · cases hr
      exact hon
    · exact h.onFrames j r hr
  · intro i j a b ha hb hne
    rw [hframes]
    rw [hregions, has_set_iff hslot] at ha hb
    rcases ha with ⟨rfl, ha⟩ | ⟨-, ha⟩ <;> rcases hb with ⟨rfl, hb⟩ | ⟨-, hb⟩
    · exact absurd rfl hne
    · cases ha
      exact (h.outside_apart j b hb).mono_left howned
    · cases hb
      exact ((h.outside_apart i a ha).mono_left howned).symm
    · exact h.apart i j a b ha hb hne
  · intro j r hr
    rw [hframes]
    rw [hregions, has_set_iff hslot] at hr
    rcases hr with ⟨-, hr⟩ | ⟨-, hr⟩
    · cases hr
      exact sdiff_disjoint
    · exact (h.outside_apart j r hr).mono_left sdiff_subset
  · intro i
    rw [hframes, h.leased, mem_sdiff]
    constructor
    · rintro (hi | ⟨j, r, hr, hi⟩)
      · by_cases hin : i ∈ region.frameRun arena.frames
        · refine Or.inr ⟨slot, region, ?_, hin⟩
          rw [hregions, has_set_self_iff hslot]
        · exact Or.inl ⟨hi, hin⟩
      · refine Or.inr ⟨j, r, ?_, hi⟩
        rw [hregions, has_set_iff hslot]
        exact Or.inr ⟨fun hj => hnone r (hj ▸ hr), hr⟩
    · rintro (hi | ⟨j, r, hr, hi⟩)
      · exact Or.inl hi.1
      · rw [hregions, has_set_iff hslot] at hr
        rcases hr with ⟨-, hr⟩ | ⟨-, hr⟩
        · cases hr
          exact Or.inl (howned hi)
        · exact Or.inr ⟨j, r, hr, hi⟩

/-- The frames of a region that leaves the table go to the pool or to others. -/
theorem dropRegion
    {outside' : Finset ℕ} (h : arena.Framed outside) (hhas : Has arena.heap.regions slot region)
    (hsound : arena'.frames.Sound) (hbase : arena'.frames.base = arena.frames.base)
    (htotal : arena'.frames.totalFrames = arena.frames.totalFrames)
    (hleased : arena'.frames.leasedFrames =
      arena.frames.leasedFrames \ region.frameRun arena.frames ∪ outside')
    (houtside : outside ⊆ outside')
    (houtside' : outside' ⊆ outside ∪ region.frameRun arena.frames)
    (hmap : arena'.heap.map = arena.heap.map)
    (hregions : arena'.heap.regions = arena.heap.regions.set slot none) :
    arena'.Framed outside' := by
  have hold (r : Region) : r.frameRun arena'.frames = r.frameRun arena.frames :=
    Region.frameRun_of_base hbase
  have hother (j : ℕ) (r : Region) :
      Has arena'.heap.regions j r ↔ Has arena.heap.regions j r ∧ j ≠ slot := by
    rw [hregions]
    exact has_set_none_iff
  refine ⟨hsound, hmap ▸ h.reaches.of_range hbase htotal, ?_, ?_, ?_, ?_, ?_, ?_⟩
  · rw [hregions, List.length_set, h.slots]
  · intro j r hr
    exact h.valid j r ((hother j r).1 hr).1
  · intro j r hr
    exact (h.onFrames j r ((hother j r).1 hr).1).of_range hbase htotal
  · intro i j a b ha hb hne
    rw [hold, hold]
    exact h.apart i j a b ((hother i a).1 ha).1 ((hother j b).1 hb).1 hne
  · intro j r hr
    obtain ⟨hr, hj⟩ := (hother j r).1 hr
    rw [hold]
    refine Disjoint.mono_left houtside' ?_
    rw [disjoint_union_left]
    exact ⟨h.outside_apart j r hr, h.apart slot j region r hhas hr hj.symm⟩
  · intro i
    rw [hleased, mem_union, mem_sdiff, h.leased, or_comm]
    constructor
    · rintro (hi | ⟨hi | ⟨j, r, hr, hi⟩, hnot⟩)
      · exact Or.inl hi
      · exact Or.inl (houtside hi)
      · by_cases hj : j = slot
        · subst hj
          cases hhas.unique hr
          exact absurd hi hnot
        · exact Or.inr ⟨j, r, (hother j r).2 ⟨hr, hj⟩, by rwa [hold]⟩
    · rintro (hi | ⟨j, r, hr, hi⟩)
      · exact Or.inl hi
      · obtain ⟨hr, hj⟩ := (hother j r).1 hr
        rw [hold] at hi
        refine Or.inr ⟨Or.inr ⟨j, r, hr, hi⟩, ?_⟩
        exact disjoint_left.1 (h.apart j slot r region hr hhas hj) hi

/-- The frames of a region that leaves the table are returned. -/
theorem returnRegion
    (h : arena.Framed outside) (hhas : Has arena.heap.regions slot region)
    (hframes : arena'.frames = arena.frames.returning _ _ (h.returnable hhas).inside)
    (hmap : arena'.heap.map = arena.heap.map)
    (hregions : arena'.heap.regions = arena.heap.regions.set slot none) :
    arena'.Framed outside := by
  have hsound := h.sound.returning (h := (h.returnable hhas).inside) (h.returnable hhas).leased
  refine h.dropRegion hhas (hframes ▸ hsound) (by rw [hframes]; rfl) (by rw [hframes]; rfl) ?_
    (Subset.refl _) subset_union_left hmap hregions
  rw [hframes, FramePool.leasedFrames_returning, ← Region.frameRun, union_eq_left.2]
  intro i hi
  rw [mem_sdiff]
  exact ⟨h.outside_subset hi, disjoint_left.1 (h.outside_apart slot region hhas) hi⟩

/-- The frames of a region that leaves the table stay leased. -/
theorem abandonRegion
    (h : arena.Framed outside) (hhas : Has arena.heap.regions slot region)
    (hframes : arena'.frames = arena.frames) (hmap : arena'.heap.map = arena.heap.map)
    (hregions : arena'.heap.regions = arena.heap.regions.set slot none) :
    arena'.Framed (outside ∪ region.frameRun arena.frames) := by
  refine h.dropRegion hhas (hframes ▸ h.sound) (by rw [hframes]) (by rw [hframes]) ?_
    subset_union_left (Subset.refl _) hmap hregions
  have hsubset := union_subset h.outside_subset (h.frameRun_subset hhas)
  rw [hframes]
  refine Subset.antisymm (fun i hi => ?_) (union_subset sdiff_subset hsubset)
  by_cases hrun : i ∈ region.frameRun arena.frames
  · exact mem_union_right _ (mem_union_right _ hrun)
  · exact mem_union_left _ (mem_sdiff.2 ⟨hi, hrun⟩)

/-- Others take free frames or return frames of theirs. -/
theorem setOutside
    {outside' : Finset ℕ} (h : arena.Framed outside) (hsound : arena'.frames.Sound)
    (hbase : arena'.frames.base = arena.frames.base)
    (htotal : arena'.frames.totalFrames = arena.frames.totalFrames)
    (hmap : arena'.heap.map = arena.heap.map)
    (hregions : arena'.heap.regions = arena.heap.regions)
    (hapart : ∀ slot region, Has arena.heap.regions slot region →
      Disjoint outside' (region.frameRun arena.frames))
    (hleased : ∀ i, i ∈ arena'.frames.leasedFrames ↔ i ∈ outside' ∨
      ∃ slot region, Has arena.heap.regions slot region ∧ i ∈ region.frameRun arena.frames) :
    arena'.Framed outside' := by
  have hold (r : Region) : r.frameRun arena'.frames = r.frameRun arena.frames :=
    Region.frameRun_of_base hbase
  refine ⟨hsound, hmap ▸ h.reaches.of_range hbase htotal, by rw [hregions, h.slots],
    by rw [hregions]; exact h.valid, ?_, ?_, ?_, ?_⟩
  · intro j r hr
    rw [hregions] at hr
    exact (h.onFrames j r hr).of_range hbase htotal
  · intro i j a b ha hb hne
    rw [hregions] at ha hb
    rw [hold, hold]
    exact h.apart i j a b ha hb hne
  · intro j r hr
    rw [hregions] at hr
    rw [hold]
    exact hapart j r hr
  · intro i
    simp only [hleased, hregions, hold]

theorem takeFrames
    {index count : ℕ} (h : arena.Framed outside)
    (hinside : index + count ≤ arena.frames.bitmap.units)
    (hfree : Disjoint arena.frames.leasedFrames (Ico index (index + count))) :
    ({ arena with frames := arena.frames.leasing index count hinside } : Arena).Framed
      (outside ∪ Ico index (index + count)) := by
  refine h.setOutside (h.sound.leasing hfree) rfl rfl rfl rfl ?_ fun i => ?_
  · intro j r hr
    rw [disjoint_union_left]
    exact ⟨h.outside_apart j r hr, (hfree.mono_left (h.frameRun_subset hr)).symm⟩
  · change i ∈ (arena.frames.leasing index count hinside).leasedFrames ↔ _
    rw [FramePool.leasedFrames_leasing, mem_union, h.leased, mem_union]
    exact or_right_comm

theorem returnFrames
    {index count : ℕ} (h : arena.Framed outside)
    (hinside : index + count ≤ arena.frames.bitmap.units)
    (howned : Ico index (index + count) ⊆ outside) :
    ({ arena with frames := arena.frames.returning index count hinside } : Arena).Framed
      (outside \ Ico index (index + count)) := by
  have hleased := howned.trans h.outside_subset
  refine h.setOutside (h.sound.returning hleased) rfl rfl rfl rfl ?_ fun i => ?_
  · exact fun j r hr => (h.outside_apart j r hr).mono_left sdiff_subset
  · change i ∈ (arena.frames.returning index count hinside).leasedFrames ↔ _
    rw [FramePool.leasedFrames_returning, mem_sdiff, h.leased, mem_sdiff, or_and_right]
    refine or_congr_right ⟨And.left, fun hi => ⟨hi, fun hrun => ?_⟩⟩
    obtain ⟨j, r, hr, hi⟩ := hi
    exact disjoint_left.1 (h.outside_apart j r hr) (howned hrun) hi

theorem addRegion
    {index : ℕ} (h : arena.Framed outside)
    (hempty : arena.heap.regions[slot]? = some none)
    (hinside : index + region.frames ≤ arena.frames.bitmap.units)
    (hfree : Disjoint arena.frames.leasedFrames (Ico index (index + region.frames)))
    (hstart : region.start = arena.frames.frameStart index) (hpos : 0 < region.frames)
    (hused : region.used = 0)
    (hframes : arena'.frames = arena.frames.leasing index region.frames hinside)
    (hmap : arena'.heap.map = arena.heap.map)
    (hregions : arena'.heap.regions = arena.heap.regions.set slot (some region)) :
    arena'.Framed outside := by
  have hadopted := (h.takeFrames hinside hfree).adoptRegion hempty subset_union_right hstart hpos
    hused hframes hmap hregions
  rwa [union_sdiff_cancel_right (hfree.mono_left h.outside_subset)] at hadopted

end Framed

end Arena

end KernelMemory
