import KernelMemory.Proofs.World.FirstFit
import KernelMemory.Proofs.World.Teardown

/-!
# Availability

Whether an allocation would succeed, and that giving memory back never takes
this away.  A block can go to a free run of some region, or to a new region if
there is a slot and a run of frames for it; `Accommodates` says so of an arena,
and `Reachable.serves_iff` that nothing else matters.  The delicate case is a
release that returns the very region that had the free run: a region is never
smaller than the heap would grow for a block that fits in it, and its slot and
its frames are free afterwards.  The main statement is
`Reachable.availability_mono`.
-/

namespace KernelMemory

open Arena Finset Program RegionTable

/-! ## Smaller requests -/

section Smaller

variable {units units' align align' : ℕ}

/-- A run has every shorter run at its start. -/
theorem Bitmap.Fits.mono
    {map : Bitmap} {t : ℕ} (h : map.Fits units align t) (hunits : units' ≤ units)
    (halign : align' ∣ align) : map.Fits units' align' t where
  aligned := halign.trans h.aligned
  inside := by
    have hinside := h.inside
    omega
  clear i hlow hhigh := h.clear i hlow (by omega)

namespace Region

variable {region : Region} {m : Memory}

theorem Fits.mono
    {t : ℕ} (h : region.Fits m units align t) (hunits : units' ≤ units)
    (halign : align' ∣ align) : region.Fits m units' align' t where
  aligned := halign.trans h.aligned
  inside := by
    have hinside := h.inside
    omega
  clear i hlow hhigh := h.clear i hlow (by omega)

theorem HasRoom.mono
    {frames : ℕ} (h : HasRoom units align frames) (hpos : 0 < align) (hunits : units' ≤ units)
    (halign : align' ∣ align) : HasRoom units' align' frames := by
  have hround := ceilDiv_mul_le (Nat.pos_of_dvd_of_pos halign hpos)
    (halign.mul_left (ceilDiv (4 * frames) align)) (le_ceilDiv_mul (4 * frames) hpos)
  rw [HasRoom] at h ⊢
  omega

/-- A region with a free run behind its maps has room for it also when it is
new. -/
theorem Fits.hasRoom
    {t : ℕ} (h : region.Fits m units align t) (hpos : 0 < align) (hbody : region.reserved ≤ t) :
    HasRoom units align region.frames := by
  have hinside := h.inside
  rw [reserved_eq] at hbody
  rw [units_eq] at hinside
  have hround := ceilDiv_mul_le hpos h.aligned hbody
  rw [HasRoom]
  omega

theorem Fits.of_removal
    {m' : Memory} {t first last : ℕ} (h : region.Fits m units align t)
    (hremoval : region.Removal m m' first last) : region.Fits m' units align t where
  aligned := h.aligned
  inside := h.inside
  clear i hlow hhigh := by
    have hinside := h.inside
    refine (hremoval.maps.used i (by omega)).trans ?_
    split_ifs
    · rfl
    · exact h.clear i hlow hhigh

/-- The heap never grows by more than a size that has room. -/
theorem Request.framesFor_le
    {count n : ℕ} (h : Request units align) (hcount : framesFor units align = .ok count)
    (hn : 16 ≤ n) (hroom : HasRoom units align n) : count ≤ n :=
  (h.isLeast_of_framesFor hcount).2 ⟨hn, hroom⟩

end Region

end Smaller

namespace FramePool

variable {pool pool' : FramePool} {count t : ℕ}

theorem fits_of_disjoint
    (hinside : t + count ≤ pool.bitmap.units)
    (hfree : Disjoint pool.leasedFrames (Ico t (t + count))) : pool.bitmap.Fits count 1 t where
  aligned := one_dvd t
  inside := hinside
  clear i hlow hhigh := by
    rw [← Bool.not_eq_true]
    intro hset
    exact disjoint_left.1 hfree (mem_leasedFrames.2 ⟨by omega, hset⟩)
      (mem_Ico.2 ⟨hlow, hhigh⟩)

/-- A free run stays free where no more frames are leased. -/
theorem fits_of_subset
    (h : pool.bitmap.Fits count 1 t) (hunits : pool'.bitmap.units = pool.bitmap.units)
    (hleased : pool'.leasedFrames ⊆ pool.leasedFrames) : pool'.bitmap.Fits count 1 t :=
  fits_of_disjoint (hunits ▸ h.inside) ((disjoint_of_fits h).mono_left hleased)

end FramePool

/-! ## Room for a block -/

namespace Arena

variable {arena arena' : Arena} {outside : Finset ℕ} {units units' align align' : ℕ}

/-- There is a free run for a block in some region, or a slot and a run of
frames for a region that has one. -/
inductive Accommodates (arena : Arena) (units align : ℕ) : Prop
  | existing {slot t : ℕ} {region : Region} (has : Has arena.heap.regions slot region)
      (fits : region.Fits arena.memory units align t)
  | new {slot count t : ℕ} (empty : arena.heap.regions[slot]? = some none)
      (size : Region.framesFor units align = .ok count)
      (fits : arena.frames.bitmap.Fits count 1 t)

/-- What has room for a block has room for a smaller one. -/
theorem Accommodates.mono
    (h : arena.Accommodates units align) (hreq : Region.Request units align)
    (hreq' : Region.Request units' align') (hunits : units' ≤ units) (halign : align' ∣ align) :
    arena.Accommodates units' align' := by
  cases h with
  | existing has fits => exact .existing has (fits.mono hunits halign)
  | new empty size fits =>
      obtain ⟨hsixteen, hroom⟩ := (hreq.isLeast_of_framesFor size).1
      obtain ⟨count', hcount', -⟩ := hreq'.framesFor_cases
      have hle := hreq'.framesFor_le hcount' hsixteen
        (hroom.mono hreq.align_pos hunits halign)
      exact .new empty hcount' (fits.mono hle dvd_rfl)

/-- Room is kept where free runs of regions find a place, empty slots stay
empty and no more frames are leased. -/
theorem Accommodates.keep
    (h : arena.Accommodates units align)
    (hregions : ∀ slot region t, Has arena.heap.regions slot region →
      region.Fits arena.memory units align t → arena'.Accommodates units align)
    (hempty : ∀ slot : ℕ, arena.heap.regions[slot]? = some none →
      arena'.heap.regions[slot]? = some none)
    (hunits : arena'.frames.bitmap.units = arena.frames.bitmap.units)
    (hleased : arena'.frames.leasedFrames ⊆ arena.frames.leasedFrames) :
    arena'.Accommodates units align := by
  cases h with
  | existing has fits => exact hregions _ _ _ has fits
  | new empty size fits =>
      exact .new (hempty _ empty) size (FramePool.fits_of_subset fits hunits hleased)

/-- A free takes no room away. -/
theorem Clears.accommodates
    {b : Block} {slot first : ℕ} {region : Region} (h : arena.Clears arena' b slot region first)
    (hframed : arena.Framed outside) (hroom : arena.Accommodates units align) :
    arena'.Accommodates units align := by
  have hset : arena'.heap.regions =
      arena.heap.regions.set slot (some (region.withoutBlock b.units)) := by
    rw [h.heap]
    rfl
  refine hroom.keep (fun j r t hr hfits => ?_) (fun j hj => ?_) ?_ ?_
  · by_cases hj : j = slot
    · subst hj
      cases h.has.unique hr
      have hhas : Has arena'.heap.regions j (region.withoutBlock b.units) := by
        rw [hset, has_set_self_iff h.has.lt]
      -- the record does not matter to what fits
      have hfits' := hfits.of_removal h.removal
      exact .existing hhas ⟨hfits'.aligned, hfits'.inside, hfits'.clear⟩
    · have hhas : Has arena'.heap.regions j r := by
        rw [hset, has_set_ne_iff (Ne.symm hj)]
        exact hr
      have hkept := hframed.get_of_mapsWritten h.has h.removal.maps hr hj
      have haddressable := (hframed.valid j r hr).toAddressable
      exact .existing hhas
        ((Region.fits_congr fun i hi => haddressable.usedAt_congr hkept hi).2 hfits)
  · have hne : slot ≠ j := by
      rintro rfl
      have hhas := h.has
      rw [Has, hj] at hhas
      cases hhas
    rw [hset, List.getElem?_set_ne hne]
    exact hj
  · rw [h.frames]
  · rw [h.frames]

theorem Accommodates.returning
    {index count : ℕ} (h : arena.Accommodates units align)
    (hinside : index + count ≤ arena.frames.bitmap.units) :
    ({ arena with frames := arena.frames.returning index count hinside } : Arena).Accommodates
      units align := by
  refine h.keep (fun slot region t hhas hfits => .existing hhas hfits) (fun slot hslot => hslot)
    (arena.frames.bitmap.sameShape_fill _ _ hinside false).units ?_
  change (arena.frames.returning index count hinside).leasedFrames ⊆ _
  rw [FramePool.leasedFrames_returning]
  exact sdiff_subset

/-- Every region has as many frames as the heap leases at least. -/
def Ample (arena : Arena) : Prop :=
  ∀ slot region, Has arena.heap.regions slot region → 16 ≤ region.frames

theorem Ample.set
    {slot : ℕ} (region : Region) (h : arena.Ample) (hslot : slot < arena.heap.regions.length)
    (hframes : 16 ≤ region.frames)
    (hregions : arena'.heap.regions = arena.heap.regions.set slot (some region)) :
    arena'.Ample := by
  intro j r hr
  rw [hregions, has_set_iff hslot] at hr
  rcases hr with ⟨-, hr⟩ | ⟨-, hr⟩
  · cases hr
    exact hframes
  · exact h j r hr

theorem Places.ample
    {slot first : ℕ} {region : Region} (hplaces : arena.Places arena' units align slot region first)
    (h : arena.Ample) : arena'.Ample :=
  h.set (region.withBlock units) hplaces.has.lt (h slot region hplaces.has)
    (by rw [hplaces.heap]; rfl)

theorem Leases.ample
    {count slot index : ℕ} {region : Region} (hleases : arena.Leases arena' count slot index region)
    (hreq : Region.Request units align) (hcount : Region.framesFor units align = .ok count)
    (h : arena.Ample) : arena'.Ample := by
  obtain ⟨hslot, -⟩ := List.getElem?_eq_some_iff.1 (Heap.emptySlot?_spec hleases.empty).1
  have hframes : 16 ≤ region.frames := by
    rw [hleases.size]
    exact (hreq.isLeast_of_framesFor hcount).1.1
  exact h.set region hslot hframes (by rw [hleases.heap]; rfl)

end Arena

namespace World

variable {w w' : World} {rules : Rules} {units align : ℕ}

/-! ## The size of regions -/

/-- A change keeps regions large. -/
theorem Change.ample
    {arena' : Arena} {ledger' : Finset Block} {held' : Finset ℕ}
    (h : w.Change arena' ledger' held') (hample : w.arena.Ample) : arena'.Ample := by
  cases h with
  | kept => exact hample
  | allocated request allocates =>
      cases allocates with
      | placed before places => exact places.ample hample
      | grown full size leases places => exact places.ample (leases.ample request size hample)
  | freed frees =>
      cases frees with
      | @freed _ _ first last region has address removal held frames heap =>
          exact hample.set (region.withoutBlock (last - first)) has.lt (hample _ region has)
            (by rw [heap]; rfl)
  | overdrawn frees =>
      cases frees with
      | overdrawn has address removal held => exact hample
  | released framed released =>
      exact fun slot region hhas => hample slot region ((released.has_iff slot region).1 hhas).1
  | leased inside free => exact hample
  | returned inside leased owned => exact hample

/-- In every run, regions stay as large as the heap grows at least. -/
theorem Reachable.ample (h : Reachable rules w) : w.arena.Ample := by
  induction h with
  | fresh h =>
      obtain ⟨map, hheap⟩ := h.heap
      intro slot region hhas
      change Has (World.heap _).regions slot region at hhas
      rw [hheap] at hhas
      exact absurd hhas (not_has_replicate _)
  | step h step ih =>
      cases step with
      | call permitted run => exact (h.orderly.called_change permitted run).2.ample ih
      | store permitted => exact ih
      | drop permitted run => exact fun slot region hhas => absurd hhas (not_has_replicate _)

/-! ## Release -/

theorem getElem?_occupied_of_vacant
    {slot : ℕ} {region : Region} (hhas : Has w.regions slot region)
    (hvacant : region.blocksOf w.ledger = ∅) : w.occupied[slot]? = some none := by
  rw [occupied, List.getElem?_map, hhas, Option.map_some, Option.filter_some,
    if_neg (by simp [hvacant])]

theorem getElem?_occupied_of_empty
    {slot : ℕ} (hempty : w.regions[slot]? = some none) : w.occupied[slot]? = some none := by
  rw [occupied, List.getElem?_map, hempty]
  rfl

theorem Vacated.disjoint_frameRun
    {arena' : Arena} (h : w.Vacated arena') {slot : ℕ} {region : Region}
    (hhas : Has w.regions slot region) (hvacant : region.blocksOf w.ledger = ∅) :
    Disjoint arena'.frames.leasedFrames (region.frameRun w.frames) := by
  rw [h.leased, disjoint_left]
  intro i hi hrun
  exact (mem_sdiff.1 hi).2 (mem_vacantFrames.2 ⟨slot, region, hhas, hvacant, hrun⟩)

/-- A release takes no room away: where it takes a region, it leaves a slot and
frames for one that is large enough. -/
theorem Vacated.accommodates
    {arena' : Arena} (h : w.Vacated arena') (hw : w.Orderly) (ht : w.Tracked)
    (hample : w.arena.Ample) (hframed : arena'.Framed (w.held ∪ w.abandoned))
    (hreq : Region.Request units align) (hroom : w.arena.Accommodates units align) :
    arena'.Accommodates units align := by
  have hunits : arena'.frames.bitmap.units = w.frames.bitmap.units := by
    rw [hframed.sound.units, hw.framed.sound.units, FramePool.totalFrames, FramePool.totalFrames,
      h.totalMemory]
  have hregions : arena'.heap.regions = w.occupied := by
    rw [h.heap]
  refine hroom.keep (fun slot region t hhas hfits => ?_) (fun slot hslot => ?_) hunits ?_
  · by_cases hvacant : region.blocksOf w.ledger = ∅
    · -- the region goes, and a new one takes no more than its frames
      have hempty : arena'.heap.regions[slot]? = some none := by
        rw [hregions, getElem?_occupied_of_vacant hhas hvacant]
      have hbody := ht.recorded.reserved_le_of_fits hhas hreq.units_pos hfits
      obtain ⟨count, hcount, -⟩ := hreq.framesFor_cases
      have hle := hreq.framesFor_le hcount (hample slot region hhas)
        (hfits.hasRoom hreq.align_pos hbody)
      have hinside := (hw.framed.onFrames slot region hhas).inside
      rw [← hw.framed.sound.units, ← hunits] at hinside
      have hfree := FramePool.fits_of_disjoint hinside (h.disjoint_frameRun hhas hvacant)
      exact .new hempty hcount (hfree.mono hle dvd_rfl)
    · have hhas' : Has arena'.heap.regions slot region := by
        rw [hregions]
        exact has_occupied_iff.2 ⟨hhas, hvacant⟩
      have hfits' : region.Fits arena'.memory units align t := by
        rw [h.memory]
        exact hfits
      exact .existing hhas' hfits'
  · rw [hregions, getElem?_occupied_of_empty hslot]
  · rw [h.leased]
    exact sdiff_subset

/-! ## Requests that would be served -/

/-- An allocation would succeed. -/
def Serves (machine : Machine LockName Arena) (size align : UInt64) : Prop :=
  ∃ pa machine', (allocAligned size align).run machine = some (.ok pa, machine')

variable {size align size' align' : UInt64}

/-- An allocation would succeed exactly if its arguments are supported and
there is room for its block. -/
theorem Reachable.serves_iff
    (h : Reachable Rules.tidy w) :
    Serves w.machine size align ↔ size ≠ 0 ∧ align.toNat.isPowerOfTwo ∧ align.toNat ≤ 4096 ∧
      w.arena.Accommodates (ceilDiv size.toNat 16) (max (align.toNat / 16) 1) := by
  have hw := h.orderly
  have hfirst {result : Result PhysAddr} {arena' : Arena} (hsize : size ≠ 0)
      (hpow : align.toNat.isPowerOfTwo) (hle : align.toNat ≤ 4096)
      (hallocates : w.arena.Allocates (ceilDiv size.toNat 16) (max (align.toNat / 16) 1) result
        arena') :=
    h.tracked.firstFit_of_allocates hw (request_of_layout hsize hpow hle) hallocates
  constructor
  · rintro ⟨pa, machine, hrun⟩
    obtain ⟨hsize, hpow, hle, hallocates⟩ := hw.allocates_of_run hrun
    refine ⟨hsize, hpow, hle, ?_⟩
    cases hfirst hsize hpow hle hallocates with
    | existing has before least address leases frames => exact .existing has least.1
    | grown full empty lowest size least start address leases frames =>
        exact .new empty size least.1
  · rintro ⟨hsize, hpow, hle, hroom⟩
    obtain ⟨result, machine, hrun, hallocates⟩ := hw.exists_allocates hsize hpow hle
    generalize machine.state = arena' at hallocates
    cases hfirst hsize hpow hle hallocates with
    | existing has before least address leases frames => exact ⟨_, machine, hrun⟩
    | grown full empty lowest size least start address leases frames => exact ⟨_, machine, hrun⟩
    | refused full stuck =>
        exfalso
        cases hroom with
        | existing has fits => exact full _ _ has _ fits
        | new empty size fits =>
            rcases stuck with hfull | ⟨count, hcount, hnone⟩
            · exact hfull _ empty
            · rw [size] at hcount
              cases hcount
              exact hnone _ fits

/-- A call that takes no room away leaves what would be served. -/
theorem Reachable.serves_called
    (h : Reachable Rules.tidy w) (hserves : Serves w.machine size align) (call : Call)
    {result : Result call.Answer} {machine : Machine LockName Arena} (hpermitted : w.Permits call)
    (hrun : call.program.run w.machine = some (result, machine))
    (hkeep : ∀ units align, Region.Request units align → w.arena.Accommodates units align →
      machine.state.Accommodates units align) : Serves machine size align := by
  obtain ⟨hsize, hpow, hle, hroom⟩ := h.serves_iff.1 hserves
  have hcalled : Reachable Rules.tidy (w.called call result machine) :=
    h.step (.call hpermitted hrun)
  exact hcalled.serves_iff.2
    ⟨hsize, hpow, hle, hkeep _ _ (request_of_layout hsize hpow hle) hroom⟩

theorem Reachable.serves_smaller
    (h : Reachable Rules.tidy w) (hserves : Serves w.machine size align) (hsize' : size' ≠ 0)
    (hle : size' ≤ size) (hpow' : align'.toNat.isPowerOfTwo) (halign : align' ≤ align) :
    Serves w.machine size' align' := by
  obtain ⟨hsize, hpow, hmax, hroom⟩ := h.serves_iff.1 hserves
  rw [UInt64.le_iff_toNat_le] at hle halign
  have hmax' := halign.trans hmax
  have hreq := request_of_layout hsize hpow hmax
  have hreq' := request_of_layout hsize' hpow' hmax'
  refine h.serves_iff.2 ⟨hsize', hpow', hmax', hroom.mono hreq hreq' ?_ ?_⟩
  · rw [ceilDiv, ceilDiv]
    omega
  · exact isPowerOfTwo_dvd hreq'.align_pow hreq.align_pow (by omega)

theorem Orderly.exists_returnable
    (hw : w.Orderly) {pa : PhysAddr} {count : ℕ} (hnonempty : (w.frameRun pa count).Nonempty)
    (howned : w.frameRun pa count ⊆ w.held) :
    w.Permits (.giveBackFrames pa count) ∧ ∃ index, w.frames.Returnable pa count index := by
  rw [frameRun] at hnonempty howned
  cases hframe : w.frames.frameIndex? pa with
  | none =>
      rw [hframe] at hnonempty
      exact absurd hnonempty not_nonempty_empty
  | some index =>
      rw [hframe] at hnonempty howned
      have hpos : 0 < count := by
        rw [nonempty_Ico] at hnonempty
        omega
      have hleased : Ico index (index + count) ⊆ w.frames.leasedFrames :=
        howned.trans (subset_union_left.trans hw.framed.outside_subset)
      have hlast : index + count - 1 ∈ Ico index (index + count) := by
        rw [mem_Ico]
        omega
      have hinside := (FramePool.mem_leasedFrames.1 (hleased hlast)).1
      refine ⟨fun other hother => ?_, index, hframe, hpos, by omega, hleased⟩
      have hindex := hother.frame
      rw [hframe, Option.some.injEq] at hindex
      exact hindex ▸ howned

/-- In every reachable world, availability is monotone.  If an allocation would
succeed, then so would any smaller one, and it would still succeed after a free
of any block that a client holds, after a return of any run of frames that
direct callers hold, and after a release of the regions without blocks. -/
theorem Reachable.availability_mono
    (h : Reachable Rules.tidy w) (hserves : Serves w.machine size align) :
    (∀ size' align' : UInt64, 1 ≤ size' → size' ≤ size → align'.toNat.isPowerOfTwo →
      align' ≤ align → Serves w.machine size' align') ∧
    (∀ b ∈ w.ledger, ∃ machine, (free b.address).run w.machine = some (.ok (), machine) ∧
      Serves machine size align) ∧
    (∀ pa count, (w.frameRun pa count).Nonempty → w.frameRun pa count ⊆ w.held →
      ∃ machine, (within framesPart (FramePool.giveBack pa count)).run w.machine =
        some (.ok (), machine) ∧ Serves machine size align) ∧
    ∃ n machine, releaseEmptyRegions.run w.machine = some (.ok n, machine) ∧
      Serves machine size align := by
  have hw := h.orderly
  have ht := h.tracked
  refine ⟨?_, ?_, ?_, ?_⟩
  · intro size' align' hone hle hpow' halign
    refine h.serves_smaller hserves ?_ hle hpow' halign
    rintro rfl
    exact absurd hone (by decide)
  · intro b hb
    obtain ⟨machine, slot, region, first, hrun, hclears⟩ := ht.exists_clears hw hb
    exact ⟨machine, hrun, h.serves_called hserves (.free b.address) trivial hrun
      fun units align _ hroom => hclears.accommodates hw.framed hroom⟩
  · intro pa count hnonempty howned
    obtain ⟨hpermitted, index, hreturnable⟩ := hw.exists_returnable hnonempty howned
    have hyields := within_framesPart
      (FramePool.giveBack_of_returnable (hw.locks .frames) hreturnable)
    obtain ⟨machine, hrun, -, hstate⟩ := hyields.exists_run
    refine ⟨machine, hrun, h.serves_called hserves (.giveBackFrames pa count) hpermitted
      hrun fun units align _ hroom => ?_⟩
    rw [hstate]
    exact hroom.returning hreturnable.inside
  · obtain ⟨n, arena', hyields, hframed, hreleased⟩ :=
      releaseEmptyRegions_cases hw.framed (hw.locks .heap) (hw.locks .frames)
    obtain ⟨machine, hrun, -, rfl⟩ := hyields.exists_run
    obtain ⟨-, hvacated⟩ := ht.vacated_of_released hw hframed hreleased
    exact ⟨n, machine, hrun, h.serves_called hserves .releaseEmptyRegions trivial hrun
      fun units align hreq hroom => hvacated.accommodates hw ht h.ample hframed hreq hroom⟩

theorem Fresh.exists_leased
    (h : w.Fresh) (rules : Rules) {count : ℕ} (hcount : 0 < count)
    (hroom : count ≤ w.frames.totalFrames) :
    ∃ w' hinside, w.Step rules w' ∧ w'.held = Ico 0 count ∧
      w'.arena = { w.arena with frames := w.frames.leasing 0 count hinside } := by
  obtain ⟨hsound, hleased⟩ := h.pool_sound
  have hleast := hsound.isLeast_fits hleased hroom
  rcases FramePool.lease_cases hsound (h.orderly.locks .frames) hcount with
    ⟨index, hleast', hinside, pa, hpa, hlease⟩ | ⟨hnone, -⟩
  · obtain rfl := hleast'.unique hleast
    have hyields : (Call.program (.leaseFrames count)).Yields w.machine.locks w.arena (.ok pa)
        { w.arena with frames := w.frames.leasing 0 count hinside } := within_framesPart hlease
    obtain ⟨machine, hrun, -, hstate⟩ := hyields.exists_run
    refine ⟨w.called (.leaseFrames count) (.ok pa) machine, hinside, .call trivial hrun, ?_,
      hstate⟩
    change w.held ∪ w.frameRun pa count = _
    rw [frameRun_eq hsound count (by omega) hpa, h.held, empty_union, Nat.zero_add]
  · exact absurd hleast.1 (hnone 0)

/-- Behind the frames of a direct caller there is room for a first block. -/
theorem Fresh.exists_serves_behind_lease
    (h : w.Fresh) {count n : ℕ} (hcount : 0 < count) (hsize : size ≠ 0)
    (hpow : align.toNat.isPowerOfTwo) (hle : align.toNat ≤ 4096)
    (hn : Region.framesFor (ceilDiv size.toNat 16) (max (align.toNat / 16) 1) = .ok n)
    (hroom : count + n ≤ w.frames.totalFrames) :
    ∃ w', Reachable Rules.tidy w' ∧ w'.held = Ico 0 count ∧
      w'.frameRun w.frames.base count = Ico 0 count ∧ Serves w'.machine size align := by
  obtain ⟨w', hinside, hstep, hheld, harena⟩ := h.exists_leased Rules.tidy hcount (by omega)
  have h' : Reachable Rules.tidy w' := .step (.fresh h) hstep
  have hsound := h'.orderly.framed.sound
  have htotal : w'.arena.frames.totalFrames = w.frames.totalFrames := by
    rw [harena, FramePool.totalFrames_leasing]
  have hslot : w'.arena.heap.regions[0]? = some none := by
    obtain ⟨map, hheap⟩ := h.heap
    rw [harena]
    change w.heap.regions[0]? = some none
    rw [hheap]
    rfl
  have hfree : Disjoint w'.arena.frames.leasedFrames (Ico count (count + n)) := by
    rw [harena, FramePool.leasedFrames_leasing, h.pool_sound.2, empty_union, Nat.zero_add]
    exact Ico_disjoint_Ico_consecutive 0 count (count + n)
  have hbehind : count + n ≤ w'.arena.frames.bitmap.units := by
    rw [hsound.units, htotal]
    exact hroom
  refine ⟨w', h', hheld, ?_, h'.serves_iff.2 ⟨hsize, hpow, hle,
    .new hslot hn (FramePool.fits_of_disjoint hbehind hfree)⟩⟩
  have hbase : w.frames.base.val.toNat = w'.arena.frames.frameStart 0 := by
    rw [harena]
    rfl
  have hfirst : 0 < w'.arena.frames.totalFrames := by omega
  rw [frameRun_eq hsound count hfirst hbase, Nat.zero_add]

/-- A heap with its first block serves a second one; it does so also when the
first block has been freed, and when its region has been released.  A pool with
a run of frames in the hands of a direct caller serves a first block; it does so
also when the run has been returned. -/
theorem exists_available_after_return :
    ∃ (w v : World) (freed released returned : Machine LockName Arena) (n : ℕ),
      (Reachable Rules.tidy w ∧ Serves w.machine 32 64 ∧ Serves w.machine 1 16 ∧
        (free ⟨0x100400⟩).run w.machine = some (.ok (), freed) ∧ Serves freed 32 64 ∧
        releaseEmptyRegions.run freed = some (.ok n, released) ∧ Serves released 32 64) ∧
      Reachable Rules.tidy v ∧ v.held = Ico 0 4 ∧ Serves v.machine 100 16 ∧
        (within framesPart (FramePool.giveBack ⟨0x100000⟩ 4)).run v.machine =
          some (.ok (), returned) ∧ Serves returned 100 16 := by
  obtain ⟨w, slot, region, hw, hledger, hhas, hfits⟩ := exists_run_behind_block
  have hserves : Serves w.machine 32 64 :=
    hw.serves_iff.2 ⟨by decide, ⟨6, rfl⟩, by decide, .existing hhas hfits⟩
  obtain ⟨hsmaller, hfree, -, -⟩ := hw.availability_mono hserves
  have hone := hsmaller 1 16 (by decide) (by decide) ⟨4, rfl⟩ (by decide)
  obtain ⟨freed, hfreed, hserves'⟩ := hfree ⟨⟨0x100400⟩, 7⟩ (by rw [hledger]; simp)
  have hw' : Reachable Rules.tidy (w.called (.free ⟨0x100400⟩) (.ok ()) freed) :=
    hw.step (.call trivial hfreed)
  obtain ⟨-, -, -, n, released, hrelease, hserves''⟩ := hw'.availability_mono hserves'
  -- a direct caller has the first four frames of a pool
  obtain ⟨u, hfresh, hbase, hframes, -⟩ := exists_fresh_thirtyTwo (.filled ⟨0x100000⟩ 0 0)
  have hsize : (100 : UInt64) ≠ 0 := by decide
  have hpow : (16 : UInt64).toNat.isPowerOfTwo := ⟨4, rfl⟩
  have hroom : 4 + 16 ≤ u.frames.totalFrames := by omega
  obtain ⟨v, hv, hheld, hrun, hfirst⟩ :=
    hfresh.exists_serves_behind_lease (by decide) hsize hpow (by decide) framesFor_seven hroom
  rw [hbase] at hrun
  obtain ⟨-, -, hreturn, -⟩ := hv.availability_mono hfirst
  obtain ⟨returned, hreturned, hfirst'⟩ :=
    hreturn ⟨0x100000⟩ 4 (by rw [hrun]; decide) (by rw [hrun, hheld])
  exact ⟨w, v, freed, released, returned, n,
    ⟨hw, hserves, hone, hfreed, hserves', hrelease, hserves''⟩, hv, hheld, hfirst, hreturned,
    hfirst'⟩

end World

end KernelMemory
