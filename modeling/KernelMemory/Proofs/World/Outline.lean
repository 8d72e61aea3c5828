import KernelMemory.Proofs.World.Plan

/-!
# What marks show

The marks that a heap keeps in memory and in the frame bitmap show the same as
the plan of its world, in every world that clients keep in order: which frames
are taken, which units are clear, and where the lowest room is.  So first fit is
a matter of the plan (`allocate_of_firstFit`, `allocate_of_refused`).
-/

namespace KernelMemory

open Arena Finset Program RegionTable

namespace Heap

variable {heap : Heap} {slot : ℕ}

theorem emptySlot?_of_lowest
    (hnone : heap.regions[slot]? = some none)
    (hlowest : ∀ j, j < slot → ∃ region, Has heap.regions j region) :
    heap.emptySlot? = some slot := by
  obtain ⟨hlt, hget⟩ := List.getElem?_eq_some_iff.1 hnone
  refine List.findIdx?_eq_some_iff_getElem.2 ⟨hlt, by rw [hget]; rfl, ?_⟩
  intro j hj
  obtain ⟨region, hregion⟩ := hlowest j hj
  rw [Has, List.getElem?_eq_getElem (by omega), Option.some.injEq] at hregion
  rw [hregion]
  exact Bool.false_ne_true

theorem emptySlot?_of_full (hfull : ∀ j : ℕ, heap.regions[j]? ≠ some none) :
    heap.emptySlot? = none := by
  refine List.findIdx?_eq_none_iff.2 fun content hcontent => ?_
  obtain ⟨j, hj⟩ := List.mem_iff_getElem?.1 hcontent
  cases content with
  | none => exact absurd hj (hfull j)
  | some region => rfl

end Heap

namespace World

variable {w : World} {slot units align : ℕ} {region : Region}

/-! ## Frames -/

section

variable (hw : w.Orderly)
include hw

/-- An address looks like the start of a frame if it is one. -/
theorem plan_frame? (pa : PhysAddr) :
    w.plan.frame? pa = w.frames.frameIndex? (pa.shownAt w.frames.base) := by
  have hsound : w.frames.Sound := hw.framed.sound
  have hspace := hsound.inSpace
  have haligned := hsound.aligned
  have htotal := w.frames.totalFrames_le
  have hsum : (pa.shownAt w.frames.base).val.toNat =
      (w.frames.base.val.toNat + pa.val.toNat) % UInt64.size := UInt64.toNat_add _ _
  have hlt : pa.val.toNat < UInt64.size := pa.val.toNat_lt
  refine Option.ext fun i => ?_
  rw [hsound.frameIndex?_eq_some_iff, hsum, FramePool.frameStart, Plan.frame?,
    Option.ite_none_right_eq_some, Option.some.injEq]
  change (_ ∧ _ < w.frames.totalFrames) ∧ _ ↔ i < w.frames.totalFrames ∧ _
  constructor
  · rintro ⟨⟨hdvd, hi⟩, rfl⟩
    refine ⟨hi, ?_⟩
    rw [Nat.mod_eq_of_lt (by omega), Nat.mul_div_cancel' hdvd]
  · -- a sum that wraps would be below the base
    rintro ⟨hi, heq⟩
    have hkept : w.frames.base.val.toNat + pa.val.toNat < UInt64.size := by
      by_contra hwraps
      rw [Nat.mod_eq_sub_mod (by omega), Nat.mod_eq_of_lt (by omega)] at heq
      omega
    rw [Nat.mod_eq_of_lt hkept] at heq
    omega

theorem start_lease (hhas : Has w.regions slot region) :
    region.start = w.frames.base.val.toNat + 4096 * (region.lease w.frames).first :=
  (hw.framed.onFrames slot region hhas).start_eq

variable (hkept : w.abandoned = ∅)
include hkept

theorem framed_held : w.arena.Framed w.held := by
  have hframed := hw.framed
  rwa [hkept, union_empty] at hframed

/-- The plan takes the frames that the bitmap marks. -/
theorem plan_taken : w.plan.taken = w.frames.leasedFrames := by
  ext i
  rw [(framed_held hw hkept).leased, Plan.taken, mem_union, mem_biUnion]
  refine or_congr_right ?_
  simp only [List.mem_toFinset, mem_plan_leases]
  constructor
  · rintro ⟨lease, ⟨slot, region, hhas, rfl⟩, hi⟩
    exact ⟨slot, region, hhas, hi⟩
  · rintro ⟨slot, region, hhas, hi⟩
    exact ⟨_, ⟨slot, region, hhas, rfl⟩, hi⟩

theorem pool_fits_iff {count t : ℕ} :
    w.frames.bitmap.Fits count 1 t ↔
      t + count ≤ w.plan.total ∧ Disjoint w.plan.taken (Ico t (t + count)) := by
  rw [plan_taken hw hkept]
  change _ ↔ t + count ≤ w.frames.totalFrames ∧ _
  rw [← hw.framed.sound.units]
  constructor
  · exact fun h => ⟨h.inside, FramePool.disjoint_of_fits h⟩
  · rintro ⟨hinside, hfree⟩
    refine ⟨one_dvd t, hinside, fun i hlow hhigh => ?_⟩
    rw [← Bool.not_eq_true]
    intro hset
    have hmem := FramePool.mem_leasedFrames.2 ⟨Nat.lt_of_lt_of_le hhigh hinside, hset⟩
    exact disjoint_left.1 hfree hmem (mem_Ico.2 ⟨hlow, hhigh⟩)

theorem plan_run?_eq_some_iff {count t : ℕ} :
    w.plan.run? count = some t ↔ IsLeast {t | w.frames.bitmap.Fits count 1 t} t := by
  rw [Plan.run?, lowest?_eq_some_iff]
  · simp only [decide_eq_true_eq, pool_fits_iff hw hkept]
  · intro t ht
    have hinside := (of_decide_eq_true ht).1
    omega

theorem plan_run?_eq_none_iff {count : ℕ} :
    w.plan.run? count = none ↔ ∀ t, ¬ w.frames.bitmap.Fits count 1 t := by
  rw [Plan.run?, lowest?_eq_none_iff]
  · simp only [decide_eq_true_eq, pool_fits_iff hw hkept]
  · intro t ht
    have hinside := (of_decide_eq_true ht).1
    omega

end

/-! ## Units -/

section

variable (hw : w.Orderly) (ht : w.Tracked)
include hw ht

theorem holds_seenFrom_iff (hhas : Has w.regions slot region) {b : Block} (hb : b ∈ w.ledger) :
    (region.lease w.frames).Holds (b.seenFrom w.frames.base) ↔ region.Holds b := by
  have hbase := Nat.le_of_lt (ht.bounds_of_mem hw hb).1
  have hstart := start_lease hw hhas
  have hunits : (b.seenFrom w.frames.base).units = b.units := rfl
  have hcount : (region.lease w.frames).count = region.frames := rfl
  rw [Lease.Holds, Region.Holds, Block.stop, Block.start_seenFrom hbase, hunits, hcount,
    region.bodyStart_eq, Block.stop, Region.stop]
  omega

theorem plan_vacant (hhas : Has w.regions slot region) :
    w.plan.vacant (region.lease w.frames) = decide (region.blocksOf w.ledger = ∅) := by
  rw [Plan.vacant, decide_eq_decide, Region.blocksOf, filter_eq_empty_iff, forall_plan_blocks]
  exact forall₂_congr fun b hb => not_congr (holds_seenFrom_iff hw ht hhas hb)

theorem covers_seenFrom_iff
    (hhas : Has w.regions slot region) {b : Block} (hb : b ∈ w.ledger) (i : ℕ) :
    (b.seenFrom w.frames.base).Covers (4096 * (region.lease w.frames).first + 16 * i) ↔
      b.Covers (region.unitStart i) := by
  have hbase := Nat.le_of_lt (ht.bounds_of_mem hw hb).1
  have hstart := start_lease hw hhas
  have hunits : (b.seenFrom w.frames.base).units = b.units := rfl
  rw [Block.Covers, Block.Covers, Block.stop, Block.stop, Block.start_seenFrom hbase, hunits,
    Region.unitStart]
  omega

/-- The maps mark the units that are not clear. -/
theorem plan_clear_iff (hhas : Has w.regions slot region) {i : ℕ} (hi : i < region.units) :
    w.plan.Clear (region.lease w.frames) i ↔ region.usedAt w.memory i = false := by
  rw [Plan.Clear, forall_plan_blocks, ← Bool.not_eq_true,
    (ht.recorded.mapped slot region hhas).used i hi, region.reserved_eq, not_or, not_lt]
  refine and_congr_right fun _ => ?_
  simp only [not_exists, not_and]
  exact forall₂_congr fun b hb => not_congr (covers_seenFrom_iff hw ht hhas hb i)

theorem fits_iff_clear (hhas : Has w.regions slot region) {t : ℕ} :
    region.Fits w.memory units align t ↔
      align ∣ t ∧ t + units ≤ 256 * (region.lease w.frames).count ∧
        ∀ i ∈ Ico t (t + units), w.plan.Clear (region.lease w.frames) i := by
  have hunits : region.units = 256 * (region.lease w.frames).count := region.units_eq
  rw [← hunits]
  constructor
  · intro h
    refine ⟨h.aligned, h.inside, fun i hi => ?_⟩
    obtain ⟨hlow, hhigh⟩ := mem_Ico.1 hi
    have hinside := h.inside
    exact (plan_clear_iff hw ht hhas (by omega)).2 (h.clear i hlow hhigh)
  · rintro ⟨haligned, hinside, hclear⟩
    refine ⟨haligned, hinside, fun i hlow hhigh => ?_⟩
    exact (plan_clear_iff hw ht hhas (by omega)).1 (hclear i (mem_Ico.2 ⟨hlow, hhigh⟩))

theorem plan_room?_eq_some_iff (hhas : Has w.regions slot region) {t : ℕ} :
    w.plan.room? units align (region.lease w.frames) = some t ↔
      IsLeast {t | region.Fits w.memory units align t} t := by
  rw [Plan.room?, lowest?_eq_some_iff]
  · simp only [decide_eq_true_eq, fits_iff_clear hw ht hhas]
  · intro t ht
    have hinside := (of_decide_eq_true ht).2.1
    omega

theorem plan_room?_eq_none_iff (hhas : Has w.regions slot region) :
    w.plan.room? units align (region.lease w.frames) = none ↔
      ∀ t, ¬ region.Fits w.memory units align t := by
  rw [Plan.room?, lowest?_eq_none_iff]
  · simp only [decide_eq_true_eq, fits_iff_clear hw ht hhas]
  · intro t ht
    have hinside := (of_decide_eq_true ht).2.1
    omega

/-! ## Where a block goes -/

omit hw ht in
/-- What the plan has in a slot. -/
theorem plan_content_cases {j : ℕ} {content : Option Lease} (h : w.plan.leases[j]? = some content) :
    (content = none) ∨
      ∃ other, Has w.regions j other ∧ content = some (other.lease w.frames) := by
  rw [getElem?_plan_leases, Option.map_eq_some_iff] at h
  obtain ⟨held, hheld, rfl⟩ := h
  cases held with
  | none => exact Or.inl rfl
  | some other => exact Or.inr ⟨other, hheld, rfl⟩

theorem plan_spot_eq_none {j : ℕ} {content : Option Lease}
    (hcontent : w.plan.leases[j]? = some content)
    (hfull : ∀ other, Has w.regions j other → ∀ t, ¬ other.Fits w.memory units align t) :
    (content.bind fun lease => (w.plan.room? units align lease).map fun t =>
      4096 * lease.first + 16 * t) = none := by
  rcases plan_content_cases hcontent with rfl | ⟨other, hother, rfl⟩
  · rfl
  · rw [Option.bind_some, (plan_room?_eq_none_iff hw ht hother).2 (hfull other hother),
      Option.map_none]

theorem plan_firstFit?_of_existing
    {first : ℕ} (hhas : Has w.regions slot region)
    (hbefore : ∀ j other, j < slot → Has w.regions j other →
      ∀ t, ¬ other.Fits w.memory units align t)
    (hleast : IsLeast {t | region.Fits w.memory units align t} first) :
    w.plan.firstFit? units align = some (4096 * (region.lease w.frames).first + 16 * first) := by
  have hslot : w.plan.leases[slot]? = some (some (region.lease w.frames)) := by
    rw [getElem?_plan_leases, hhas]
    rfl
  apply findSome?_eq_some_of_getElem? hslot
  · rw [Option.bind_some, (plan_room?_eq_some_iff hw ht hhas).2 hleast, Option.map_some]
  · intro j content hj hcontent
    exact plan_spot_eq_none hw ht hcontent fun other => hbefore j other hj

theorem plan_firstFit?_of_full
    (hfull : ∀ j other, Has w.regions j other → ∀ t, ¬ other.Fits w.memory units align t) :
    w.plan.firstFit? units align = none := by
  rw [Plan.firstFit?, List.findSome?_eq_none_iff]
  intro content hcontent
  obtain ⟨j, hj⟩ := List.mem_iff_getElem?.1 hcontent
  exact plan_spot_eq_none hw ht hj (hfull j)

end

theorem plan_emptySlot? (w : World) :
    w.plan.leases.findIdx? (·.isNone) = w.heap.emptySlot? := by
  rw [plan_leases, List.findIdx?_map, Heap.emptySlot?]
  congr 1
  funext content
  exact Option.isNone_map

/-- The plan grows by the lowest free run into the lowest empty slot. -/
theorem plan_growth?_of_leasable
    {count index : ℕ} (hw : w.Orderly) (hkept : w.abandoned = ∅)
    (hempty : w.heap.emptySlot? = some slot) (hsize : Region.framesFor units align = .ok count)
    (hleast : IsLeast {t | w.frames.bitmap.Fits count 1 t} index) :
    w.plan.growth? units align = some (slot, ⟨index, count⟩) := by
  have hrun := (plan_run?_eq_some_iff hw hkept).2 hleast
  rw [Plan.growth?, plan_emptySlot?, hempty, hsize]
  change (w.plan.run? count).bind (fun first => some (slot, (⟨first, count⟩ : Lease))) = _
  rw [hrun]
  rfl

/-- The plan does not grow without a slot or without frames. -/
theorem plan_growth?_of_stuck
    (hw : w.Orderly) (hkept : w.abandoned = ∅)
    (hstuck : w.heap.emptySlot? = none ∨ ∃ count, Region.framesFor units align = .ok count ∧
      ∀ t, ¬ w.frames.bitmap.Fits count 1 t) :
    w.plan.growth? units align = none := by
  rw [Plan.growth?, plan_emptySlot?]
  rcases hstuck with hempty | ⟨count, hsize, hnone⟩
  · rw [hempty]
    rfl
  · have hrun := (plan_run?_eq_none_iff hw hkept).2 hnone
    rw [hsize]
    cases w.heap.emptySlot? with
    | none => rfl
    | some slot =>
        change (w.plan.run? count).bind (fun first => some (slot, (⟨first, count⟩ : Lease))) = _
        rw [hrun]
        rfl

/-! ## Allocations -/

theorem plan_insert
    (arena : Arena) (ledger : Finset Block) (held : Finset ℕ) {pa : PhysAddr} {n : ℕ} (units : ℕ)
    (hpa : pa.val.toNat = arena.frames.base.val.toNat + n) :
    arena.plan (insert ⟨pa, units⟩ ledger) held = (arena.plan ledger held).placing n units := by
  have hblock : Block.seenFrom ⟨pa, units⟩ arena.frames.base = ⟨⟨UInt64.ofNat n⟩, units⟩ :=
    congrArg (Block.mk · units) (Address.seenFrom_of_toNat hpa)
  rw [Arena.plan, image_insert, hblock]
  rfl

/-- The plan shows leases and no more of the heap. -/
theorem plan_congr
    {arena arena' : Arena} (ledger : Finset Block) (held : Finset ℕ)
    (hbase : arena'.frames.base = arena.frames.base)
    (htotal : arena'.frames.totalFrames = arena.frames.totalFrames)
    (hleases : arena'.heap.leases = arena.heap.leases) :
    arena'.plan ledger held = arena.plan ledger held := by
  rw [Arena.plan, hbase, htotal, hleases]
  rfl

theorem plan_set
    {arena arena' : Arena} (ledger : Finset Block) (held : Finset ℕ) {base : PhysAddr}
    {count index : ℕ} (hbase : arena'.frames.base = arena.frames.base)
    (htotal : arena'.frames.totalFrames = arena.frames.totalFrames)
    (hstart : base.val.toNat = arena.frames.frameStart index)
    (hleases : arena'.heap.leases = arena.heap.leases.set slot (some (base, count))) :
    arena'.plan ledger held = { arena.plan ledger held with
      leases := (arena.plan ledger held).leases.set slot (some ⟨index, count⟩) } := by
  have hlease : Lease.ofAddress arena.frames.base (base, count) = ⟨index, count⟩ := by
    rw [Lease.ofAddress, hstart, FramePool.frameStart, Nat.add_sub_cancel_left,
      Nat.mul_div_cancel_left index (by decide)]
  rw [Arena.plan, hbase, htotal, hleases, List.map_set, Option.map_some, hlease]
  rfl

/-- First fit goes by the plan. -/
theorem allocate_of_firstFit
    {pa : PhysAddr} {arena' : Arena} (hw : w.Orderly) (ht : w.Tracked) (hkept : w.abandoned = ∅)
    (hfit : w.FirstFit units align (.ok pa) arena') :
    w.plan.allocate units align = (.ok (.address (pa.seenFrom w.frames.base)),
      arena'.plan (insert ⟨pa, units⟩ w.ledger) w.held) := by
  cases hfit with
  | @existing slot first region _ _ has before least address leases frames =>
      have hfirst := plan_firstFit?_of_existing hw ht has before least
      have hbase : arena'.frames.base = w.frames.base := by rw [frames]
      have hpa : pa.val.toNat = arena'.frames.base.val.toNat +
          (4096 * (region.lease w.frames).first + 16 * first) := by
        rw [address, start_lease hw has, hbase]
        exact Nat.add_assoc _ _ _
      have hplan : arena'.plan w.ledger w.held = w.plan :=
        plan_congr w.ledger w.held hbase (by rw [frames]) leases
      rw [Plan.allocate, hfirst, plan_insert arena' w.ledger w.held units hpa, hplan, ← hbase,
        Address.seenFrom_of_toNat hpa]
  | @grown slot count index base _ _ full empty lowest size least start address leases frames =>
      obtain ⟨hinside, hframes⟩ := frames
      have hfirst := plan_firstFit?_of_full hw ht full
      have hslot : w.heap.emptySlot? = some slot := Heap.emptySlot?_of_lowest empty lowest
      have hgrowth := plan_growth?_of_leasable hw hkept hslot size least
      have hbase : arena'.frames.base = w.frames.base := by
        rw [hframes]
        rfl
      have htotal : arena'.frames.totalFrames = w.frames.totalFrames := by
        rw [hframes]
        rfl
      have hpa : pa.val.toNat = arena'.frames.base.val.toNat +
          (4096 * index + 16 * (ceilDiv (4 * count) align * align)) := by
        rw [address, start, FramePool.frameStart, hbase]
        exact Nat.add_assoc _ _ _
      have hplan := plan_set w.ledger w.held hbase htotal start leases
      rw [Plan.allocate, hfirst, hgrowth, plan_insert arena' w.ledger w.held units hpa, hplan,
        ← hbase, Address.seenFrom_of_toNat hpa]
      rfl

theorem allocate_of_refused
    {error : AllocError} {arena' : Arena} (hw : w.Orderly) (ht : w.Tracked)
    (hkept : w.abandoned = ∅) (hfit : w.FirstFit units align (.refuse error) arena') :
    w.plan.allocate units align = (.refuse error, w.plan) ∧ arena' = w.arena := by
  cases hfit with
  | refused full stuck =>
      have hfirst := plan_firstFit?_of_full hw ht full
      have hgrowth := plan_growth?_of_stuck hw hkept (stuck.imp_left Heap.emptySlot?_of_full)
      rw [Plan.allocate, hfirst, hgrowth]
      exact ⟨rfl, rfl⟩

end World

end KernelMemory
