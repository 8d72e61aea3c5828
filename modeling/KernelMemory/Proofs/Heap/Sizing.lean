import KernelMemory.Proofs.Heap.Edits

/-!
# Sizing a region

A new region is no larger than the block it is leased for needs.  What a size
is good for is a run of units behind the maps, and the maps grow with the
region: `hasRoom_iff` turns the existence of such a run into a comparison, and
`fits_iff_runBehindMaps` finds the same runs in the maps of a formatted region.

The main statement `framesFor_isLeast_and_serves` says that the search for a
size ends after at most one step, with the least size that will do, and that a
formatted region of this size serves the block at its first aligned unit.
-/

namespace KernelMemory.Region

open Parameters (unitsPerFrame mapUnitsPerFrame heapGrowFrames)

variable {region : Region} {m : Memory} {units align t : ℕ}

/-- A run of units behind the maps of a region, at a multiple of `align`. -/
structure RunBehindMaps (region : Region) (units align first : ℕ) : Prop where
  aligned : align ∣ first
  behind : region.reserved ≤ first
  inside : first + units ≤ region.units

/-- The free runs of a formatted region are those behind its maps. -/
theorem fits_iff_runBehindMaps
    (hused : ∀ i, i < region.units → region.usedAt m i = decide (i < region.reserved))
    (hunits : 0 < units) :
    region.Fits m units align t ↔ region.RunBehindMaps units align t := by
  constructor
  · intro hfits
    have hinside := hfits.inside
    have hclear := hfits.clear t (Nat.le_refl t) (by omega)
    rw [hused t (by omega), decide_eq_false_iff_not, not_lt] at hclear
    exact ⟨hfits.aligned, hclear, hinside⟩
  · intro hrun
    have hbehind := hrun.behind
    have hinside := hrun.inside
    refine ⟨hrun.aligned, hinside, ?_⟩
    intro i hi hi'
    rw [hused i (by omega), decide_eq_false_iff_not]
    omega

namespace Request

variable (h : Request units align)
include h

theorem le_of_runBehindMaps (hrun : region.RunBehindMaps units align t) :
    ceilDiv (4 * region.frames) align * align ≤ t := by
  have hbehind := hrun.behind
  rw [reserved_eq] at hbehind
  exact ceilDiv_mul_le h.align_pos hrun.aligned hbehind

theorem runBehindMaps_of_hasRoom (hroom : HasRoom units align region.frames) :
    region.RunBehindMaps units align (ceilDiv (4 * region.frames) align * align) := by
  constructor
  · exact Nat.dvd_mul_left _ _
  · rw [reserved_eq]
    exact le_ceilDiv_mul _ h.align_pos
  · rw [units_eq]
    exact hroom

/-- A region without blocks has room exactly if some run lies behind its
maps. -/
theorem hasRoom_iff :
    HasRoom units align region.frames ↔ ∃ first, region.RunBehindMaps units align first := by
  constructor
  · intro hroom
    exact ⟨_, h.runBehindMaps_of_hasRoom hroom⟩
  · rintro ⟨first, hrun⟩
    have hle := h.le_of_runBehindMaps hrun
    have hinside := hrun.inside
    rw [units_eq] at hinside
    rw [HasRoom]
    omega

theorem isLeast_fits
    (hused : ∀ i, i < region.units → region.usedAt m i = decide (i < region.reserved))
    (hroom : HasRoom units align region.frames) :
    IsLeast {first | region.Fits m units align first}
      (ceilDiv (4 * region.frames) align * align) := by
  constructor
  · exact (fits_iff_runBehindMaps hused h.units_pos).2 (h.runBehindMaps_of_hasRoom hroom)
  · intro first hfirst
    exact h.le_of_runBehindMaps ((fits_iff_runBehindMaps hused h.units_pos).1 hfirst)

/-- The search for a size starts at most one frame too low. -/
theorem framesFor_bounds {frames : ℕ} (hframes : framesFor units align = .ok frames) :
    max (ceilDiv units (unitsPerFrame - mapUnitsPerFrame)) heapGrowFrames ≤ frames ∧
      frames ≤ max (ceilDiv units (unitsPerFrame - mapUnitsPerFrame)) heapGrowFrames + 1 := by
  have hguess : unitsPerFrame - mapUnitsPerFrame = 252 := rfl
  have hgrow : heapGrowFrames = 16 := rfl
  have hlow := le_ceilDiv_mul units (d := 252) (by decide)
  have hhigh := ceilDiv_mul_lt units (d := 252) (by decide)
  have hleast := h.isLeast_of_framesFor hframes
  have hunits := h.le_of_hasRoom hleast.1.2
  have hsixteen := hleast.1.1
  rw [hguess, hgrow]
  constructor
  · omega
  · apply hleast.2
    exact ⟨by omega, h.hasRoom_succ _ (by omega)⟩

/-- A region with room that was just formatted serves the block at its first
aligned unit. -/
theorem exists_place_of_format
    {map : DirectMap} (hregion : region.Addressable) (hvisible : region.Visible map)
    (hunused : region.used = 0) (hroom : HasRoom units align region.frames) (m : Memory) :
    ∃ m₁ m₂, (region.format map).perform m = (.ok (), m₁) ∧
      region.Placement m₁ m₂ units align (ceilDiv (4 * region.frames) align * align) ∧
      (region.place map units align).perform m₁ =
        (.ok (some (region.unitAddress (ceilDiv (4 * region.frames) align * align),
          region.withBlock units)), m₂) := by
  obtain ⟨m₁, hwritten, hformat⟩ := perform_format hregion hvisible m
  have hleast := h.isLeast_fits hwritten.used hroom
  have hheld : region.used + units < Word.count := by
    have hunits := h.units_le
    rw [hunused, Word.count_eq]
    omega
  rcases perform_place_cases hregion hvisible h hheld m₁ with
    ⟨first, m₂, hplacement, hplace⟩ | ⟨hnone, -⟩
  · obtain rfl := hplacement.least.unique hleast
    exact ⟨m₁, m₂, hformat, hplacement, hplace⟩
  · exact absurd hleast.1 (hnone _)

/-- The size of a new region, for every block that can be asked for: the search
delivers and passes over at most one size; the size it finds is the least, from
the growth step on, with a run for the block behind the maps; and wherever a
region of this size lies on whole frames that a direct map shows, with any
content of memory, the first block that it places after it was formatted starts
at the first aligned unit behind the maps. -/
theorem framesFor_isLeast_and_serves (base : PhysAddr) :
    ∃ frames, framesFor units align = .ok frames ∧
      max (ceilDiv units (unitsPerFrame - mapUnitsPerFrame)) heapGrowFrames ≤ frames ∧
      frames ≤ max (ceilDiv units (unitsPerFrame - mapUnitsPerFrame)) heapGrowFrames + 1 ∧
      IsLeast {n | heapGrowFrames ≤ n ∧
        ∃ first, (Region.mk base n 0).RunBehindMaps units align first} frames ∧
      create base frames = .ok (Region.mk base frames 0) ∧
      ∀ map, (Region.mk base frames 0).Addressable → (Region.mk base frames 0).Visible map →
        ∀ m, ∃ m₁ m₂ address,
        ((Region.mk base frames 0).format map).perform m = (.ok (), m₁) ∧
        ((Region.mk base frames 0).place map units align).perform m₁ =
          (.ok (some (address, Region.mk base frames units)), m₂) ∧
        address.val.toNat = base.val.toNat + 16 * (ceilDiv (4 * frames) align * align) ∧
        (Region.mk base frames 0).Placement m₁ m₂ units align
          (ceilDiv (4 * frames) align * align) := by
  obtain ⟨frames, hframes, hleast, hsmall⟩ := h.framesFor_cases
  obtain ⟨hlow, hhigh⟩ := h.framesFor_bounds hframes
  have hroom : HasRoom units align (Region.mk base frames 0).frames := hleast.1.2
  have hset : {n | 16 ≤ n ∧ HasRoom units align n} =
      {n | heapGrowFrames ≤ n ∧
        ∃ first, (Region.mk base n 0).RunBehindMaps units align first} := by
    ext n
    have hiff : HasRoom units align (Region.mk base n 0).frames ↔ _ := h.hasRoom_iff
    exact and_congr_right fun _ => hiff
  rw [hset] at hleast
  refine ⟨frames, hframes, hlow, hhigh, hleast,
    create_eq base (by rw [Word.count_eq]; omega), ?_⟩
  intro map hregion hvisible m
  obtain ⟨m₁, m₂, hformat, hplacement, hplace⟩ :=
    h.exists_place_of_format hregion hvisible rfl hroom m
  have hinside := (h.runBehindMaps_of_hasRoom hroom).inside
  have haddress := hregion.toNat_unitAddress (Nat.le_of_add_right_le hinside)
  rw [withBlock, Nat.zero_add] at hplace
  exact ⟨m₁, m₂, _, hformat, hplace, haddress, hplacement⟩

end Request

/-- A block as large as the body of sixteen frames, at a multiple of a frame,
needs the seventeenth frame and starts at the second one; seen through the
higher half, for example. -/
theorem framesFor_isLeast_and_serves_padded :
    Request 4032 256 ∧ framesFor 4032 256 = .ok 17 ∧
      (Region.mk ⟨0x100000⟩ 17 0).Addressable ∧ (Region.mk ⟨0x100000⟩ 17 0).Visible .higherHalf ∧
      ∀ m, ∃ m₁ m₂ address,
        ((Region.mk ⟨0x100000⟩ 17 0).format .higherHalf).perform m = (.ok (), m₁) ∧
        ((Region.mk ⟨0x100000⟩ 17 0).place .higherHalf 4032 256).perform m₁ =
          (.ok (some (address, Region.mk ⟨0x100000⟩ 17 4032)), m₂) ∧
        address.val.toNat = 0x101000 := by
  have hreq : Request 4032 256 := ⟨by decide, by decide, ⟨8, by decide⟩, by decide⟩
  obtain ⟨frames, hframes, hlow, hhigh, hleast, -, hserves⟩ :=
    hreq.framesFor_isLeast_and_serves ⟨0x100000⟩
  have hguess : max (ceilDiv 4032 (unitsPerFrame - mapUnitsPerFrame)) heapGrowFrames = 16 := by
    decide
  have hfull : ¬ HasRoom 4032 256 16 := by decide
  have hne : frames ≠ 16 := by
    rintro rfl
    have hroom : HasRoom 4032 256 (Region.mk ⟨0x100000⟩ 16 0).frames :=
      hreq.hasRoom_iff.2 hleast.1.2
    exact hfull hroom
  obtain rfl : frames = 17 := by omega
  have hregion : (Region.mk ⟨0x100000⟩ 17 0).Addressable := ⟨by decide, by decide, by decide⟩
  have hvisible : (Region.mk ⟨0x100000⟩ 17 0).Visible .higherHalf := by decide
  refine ⟨hreq, hframes, hregion, hvisible, ?_⟩
  intro m
  obtain ⟨m₁, m₂, address, hformat, hplace, haddress, -⟩ := hserves _ hregion hvisible m
  exact ⟨m₁, m₂, address, hformat, hplace, haddress⟩

end KernelMemory.Region
