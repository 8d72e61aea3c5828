import KernelMemory.Proofs.Heap.Maps

/-!
# Editing the maps of a region

The three sections that edit a region's maps, run on memory with any content
that the heap can see.  Formatting marks the units under the maps; placing marks
the lowest aligned free run and its head; removing clears the units of one block
and its head.  A section that finds nothing to do leaves memory as it was.
-/

namespace KernelMemory

/-! ## On the maps alone -/

namespace RegionMaps

variable {maps : RegionMaps Bitmap} {units align first size : ℕ}

/-- Placing takes the lowest aligned free run and marks its head. -/
theorem perform_place_cases
    (hmax : maps.used.units ≤ Bitmap.maxUnits) (hheads : maps.used.units ≤ maps.head.units)
    (hreq : Region.Request units align) :
    (∃ first, IsLeast {t | maps.used.Fits units align t} first ∧
      ∃ (hinside : first + units ≤ maps.used.units) (hfirst : first < maps.head.units),
        (place units align).perform maps =
          (.ok (some first), ⟨maps.used.fill first (first + units) hinside true,
            maps.head.put first hfirst true⟩)) ∨
    ((∀ t, ¬ maps.used.Fits units align t) ∧
      (place units align).perform maps = (.ok none, maps)) := by
  rcases maps.used.allocAligned_cases hmax hreq.units_pos hreq.align_pow hreq.align_le_maxUnits
    with ⟨first, hleast, hinside, halloc⟩ | ⟨hnone, halloc⟩
  · have hpos := hreq.units_pos
    have hfirst : first < maps.head.units := by omega
    have hhead := maps.head.perform_set_of_lt hfirst true
    refine Or.inl ⟨first, hleast, hinside, hfirst, ?_⟩
    rw [place, Section.perform_bind_ok (Section.perform_attempt _ _), perform_onUsed halloc]
    exact Section.perform_bind_ok (perform_onHead hhead)
  · refine Or.inr ⟨hnone, ?_⟩
    rw [place, Section.perform_bind_ok (Section.perform_attempt _ _), perform_onUsed halloc]
    rfl

theorem perform_remove_of_head
    (hset : maps.head.isSet first = true) (hfirst : first < maps.head.units)
    (hend : maps.blockEnd units (first + 1) = .ok (first + size))
    (hinside : first + size ≤ maps.used.units) :
    (remove units first).perform maps =
      (.ok (some size), ⟨maps.used.fill first (first + size) hinside false,
        maps.head.put first hfirst false⟩) := by
  have htest := maps.head.test_of_lt hfirst
  have hsub : Word.sub (first + size) first = .ok size := by
    rw [Word.sub_eq_ok_iff]
    omega
  have hclear : (Bitmap.clearRange first size).perform maps.used = _ :=
    maps.used.perform_setRange_of_le hinside false
  have hhead := maps.head.perform_set_of_lt hfirst false
  rw [remove, Section.perform_get_bind, Section.perform_lift_bind_ok _ _ htest, if_pos hset,
    Section.perform_lift_bind_ok _ _ hend, Section.perform_lift_bind_ok _ _ hsub,
    Section.perform_bind_ok (perform_onUsed hclear)]
  exact Section.perform_bind_ok (perform_onHead hhead)

theorem perform_remove_of_not_head
    (hset : ¬ maps.head.isSet first = true) (hfirst : first < maps.head.units) :
    (remove units first).perform maps = (.ok none, maps) := by
  have htest := maps.head.test_of_lt hfirst
  rw [remove, Section.perform_get_bind, Section.perform_lift_bind_ok _ _ htest, if_neg hset]
  rfl

/-- The scan for the end of a block stops at the first unit that is free or a
head. -/
theorem exists_blockEnd
    (maps : RegionMaps Bitmap) {units : ℕ} (hused : maps.used.units = units)
    (hhead : maps.head.units = units) {i : ℕ} (hi : i ≤ units) :
    ∃ last, maps.blockEnd units i = .ok last ∧ i ≤ last ∧ last ≤ units ∧
      (∀ j, i ≤ j → j < last → maps.used.isSet j = true ∧ maps.head.isSet j = false) ∧
      (last < units → maps.used.isSet last = false ∨ maps.head.isSet last = true) := by
  induction hn : units - i generalizing i with
  | zero =>
      have hend : ¬ i < units := by omega
      refine ⟨i, ?_, Nat.le_refl i, hi, fun j _ _ => by omega, fun hlt => by omega⟩
      rw [RegionMaps.blockEnd, if_neg hend]
      rfl
  | succ n ih =>
      have hlt : i < units := by omega
      have htest_used := maps.used.test_of_lt (i := i) (by rwa [hused])
      have htest_head := maps.head.test_of_lt (i := i) (by rwa [hhead])
      have hstep : maps.blockEnd units i =
          if maps.used.isSet i = true then
            if maps.head.isSet i = true then .ok i else maps.blockEnd units (i + 1)
          else .ok i := by
        rw [RegionMaps.blockEnd, if_pos hlt, htest_used]
        simp only [Bind.bind, Except.bind, htest_head, pure, Except.pure]
      rw [hstep]
      by_cases hset : maps.used.isSet i = true
      · by_cases hstart : maps.head.isSet i = true
        · refine ⟨i, ?_, Nat.le_refl i, hi, fun j _ _ => by omega, fun _ => Or.inr hstart⟩
          rw [if_pos hset, if_pos hstart]
        · rw [if_pos hset, if_neg hstart]
          obtain ⟨last, hrun, hle, hlast, htail, hends⟩ := ih (i := i + 1) (by omega) (by omega)
          refine ⟨last, hrun, by omega, hlast, fun j hij hj => ?_, hends⟩
          rcases Nat.eq_or_lt_of_le hij with rfl | hlt'
          · exact ⟨hset, Bool.eq_false_of_not_eq_true hstart⟩
          · exact htail j hlt' hj
      · refine ⟨i, ?_, Nat.le_refl i, hi, fun j _ _ => by omega, fun _ => Or.inl ?_⟩
        · rw [if_neg hset]
        · exact Bool.eq_false_of_not_eq_true hset

end RegionMaps

namespace Region

variable {region : Region} {map : DirectMap} {m : Memory} {units align : ℕ}

/-! ## In memory -/

theorem perform_format
    (h : region.Addressable) (hvisible : region.Visible map) (m : Memory) :
    ∃ m', region.MapsWritten m m' (fun i => decide (i < region.reserved)) (fun _ => false) ∧
      (region.format map).perform m = (.ok (), m') := by
  have hpos := h.mapBytes_pos
  have hunits := region.units_eq_eight_mapBytes
  have hreserved : 0 + region.reserved ≤ region.units := by
    have := region.reserved_lt_units h.frames_pos
    omega
  obtain ⟨hfront, hback⟩ := region.size_bytesAt m
  obtain ⟨used, hused, hused_units, hused_storage⟩ :=
    Bitmap.exists_withUnits hpos hfront.ge h.units_pos ceilDiv_units.le
  obtain ⟨head, hhead, hhead_units, hhead_storage⟩ :=
    Bitmap.exists_withUnits hpos hback.ge h.units_pos ceilDiv_units.le
  have hcleared : region.Shows ⟨used, head⟩ (fun _ => false) (fun _ => false) := by
    refine ⟨hused_units, ?_, ?_, hhead_units, ?_, ?_⟩
    · rw [hused_storage, Bitmap.size_clearFront hfront.ge, hfront]
    · intro i hi
      have hi8 : i / 8 < region.mapBytes := by omega
      rw [Bitmap.isSet, hused_storage, Bitmap.bit_clearFront, if_pos hi8]
    · rw [hhead_storage, Bitmap.size_clearFront hback.ge, hback]
    · intro i hi
      have hi8 : i / 8 < region.mapBytes := by omega
      rw [Bitmap.isSet, hhead_storage, Bitmap.bit_clearFront, if_pos hi8]
  have hinside : 0 + region.reserved ≤ used.units := by rwa [hused_units]
  have hmarked : region.Shows ⟨used.fill 0 (0 + region.reserved) hinside true, head⟩
      (fun i => decide (i < region.reserved)) (fun _ => false) := by
    have hshape := used.sameShape_fill 0 (0 + region.reserved) hinside true
    refine ⟨hshape.units.trans hused_units, hshape.size.trans hcleared.used_size, ?_, hhead_units,
      hcleared.head_size, hcleared.head⟩
    intro i hi
    rw [Bitmap.isSet_fill, hcleared.used i hi]
    by_cases hlow : i < region.reserved
    · rw [if_pos (by omega), decide_eq_true hlow]
    · rw [if_neg (by omega), decide_eq_false hlow]
  have hbind : (region.bindMaps map (Bitmap.withUnits region.mapBytes region.units)).perform m =
      (.ok ⟨used, head⟩, region.store (RegionMaps.bytes ⟨used, head⟩) m) := by
    rw [perform_bindMaps hvisible, RegionMaps.perform_bind hused hhead]
  refine ⟨_, (h.store_written hcleared m).trans (h.store_written hmarked _), ?_⟩
  rw [format, Section.perform_bind_ok hbind]
  exact perform_edit (RegionMaps.perform_onUsed (used.perform_setRange_of_le hinside true)) _

theorem perform_format_of_not_visible (hvisible : ¬ region.Visible map) (m : Memory) :
    (region.format map).perform m = (.fault .invalidSlice, m) := by
  rw [format, Section.perform_bind_error (perform_bindMaps_of_not hvisible _ _)]

/-- Placing takes the lowest aligned free run; without one memory is kept. -/
theorem perform_place_cases
    (h : region.Addressable) (hvisible : region.Visible map) (hreq : Request units align)
    (hheld : region.used + units < Word.count) (m : Memory) :
    (∃ first m', region.Placement m m' units align first ∧
      (region.place map units align).perform m =
        (.ok (some (region.unitAddress first, region.withBlock units)), m')) ∨
    ((∀ t, ¬ region.Fits m units align t) ∧
      (region.place map units align).perform m = (.ok none, m)) := by
  obtain ⟨maps, hmaps, hshows, hbytes⟩ := h.exists_maps hvisible m
  have hmax : maps.used.units ≤ Bitmap.maxUnits := by
    rw [hshows.used_units]
    exact h.units_le_maxUnits
  have hheads : maps.used.units ≤ maps.head.units := by
    rw [hshows.used_units, hshows.head_units]
  rw [place, Section.perform_bind_ok hmaps]
  rcases RegionMaps.perform_place_cases hmax hheads hreq with
    ⟨first, hleast, hinside, hfirst, hplace⟩ | ⟨hnone, hplace⟩
  · have hset : {t | maps.used.Fits units align t} = {t | region.Fits m units align t} :=
      Set.ext fun t => fits_iff hshows
    rw [hset] at hleast
    have hedited := hshows.edit hinside hfirst true
    have hadd : Word.add region.used units = .ok (region.used + units) := by
      rw [Word.add_eq_ok_iff]
      exact ⟨hheld, rfl⟩
    rw [hshows.head_units] at hfirst
    refine Or.inl ⟨first, _, ⟨hleast, h.store_written hedited m⟩, ?_⟩
    rw [Section.perform_bind_ok (perform_edit hplace m)]
    simp only []
    rw [Section.perform_lift_bind_ok _ _ hadd,
      Section.perform_lift_bind_ok _ _ (h.addressOf_eq hfirst)]
    rfl
  · refine Or.inr ⟨fun t ht => hnone t ((fits_iff hshows).2 ht), ?_⟩
    rw [Section.perform_bind_ok (perform_edit hplace m), hbytes, store_bytesAt]
    rfl

/-- From the unit after a head, the scan ends where the block does. -/
theorem exists_extent
    {maps : RegionMaps Bitmap} {first : ℕ}
    (hshows : region.Shows maps (region.usedAt m) (region.headAt m))
    (hbody : region.reserved ≤ first) (hfirst : first < region.units)
    (hhead : region.headAt m first = true) :
    ∃ last, maps.blockEnd region.units (first + 1) = .ok last ∧ region.Extent m first last := by
  obtain ⟨last, hend, hle, hlast, htail, hends⟩ :=
    RegionMaps.exists_blockEnd maps hshows.used_units hshows.head_units (i := first + 1) hfirst
  refine ⟨last, hend, hbody, hle, hlast, hhead, fun j hj hj' => ?_, fun hlt => ?_⟩
  · rw [← hshows.used j (by omega), ← hshows.head j (by omega)]
    exact htail j hj hj'
  · rw [← hshows.used last hlt, ← hshows.head last hlt]
    exact hends hlt

/-- Removing clears the block that the maps show at an address, if there is
one; otherwise memory is kept.  A block larger than what the region is known to
hold faults after the maps were cleared. -/
theorem perform_remove_cases
    (h : region.Addressable) (hvisible : region.Visible map) (pa : PhysAddr) (m : Memory) :
    (∃ first last m', pa.val.toNat = region.unitStart first ∧
      region.Removal m m' first last ∧
      (region.remove map pa).perform m =
        (if last - first ≤ region.used then
          .ok (some (last - first, region.withoutBlock (last - first)))
        else .fault .subOverflow, m')) ∨
    ((∀ first, pa.val.toNat = region.unitStart first → region.reserved ≤ first →
        first < region.units → region.headAt m first = false) ∧
      (region.remove map pa).perform m = (.ok none, m)) := by
  rcases h.unitOf_cases pa with ⟨first, hfirst, hpa, hunit⟩ | ⟨hno, hunit⟩
  · have hunique : ∀ t, pa.val.toNat = region.unitStart t → t = first := by
      intro t ht
      rw [ht, unitStart, unitStart] at hpa
      omega
    obtain ⟨maps, hmaps, hshows, hbytes⟩ := h.exists_maps hvisible m
    have hfirst' : first < maps.head.units := by rwa [hshows.head_units]
    rw [remove, Section.perform_lift_bind_ok _ _ hunit]
    simp only []
    rw [Section.perform_bind_ok hmaps]
    by_cases hlow : first < region.reserved
    · refine Or.inr ⟨fun t ht hbody _ => ?_, ?_⟩
      · rw [hunique t ht] at hbody
        omega
      · rw [if_pos hlow]
        rfl
    rw [if_neg hlow]
    by_cases hhead : region.headAt m first = true
    · obtain ⟨last, hend, hextent⟩ := exists_extent hshows (Nat.le_of_not_lt hlow) hfirst hhead
      obtain ⟨size, rfl⟩ := Nat.exists_eq_add_of_le (Nat.le_of_lt hextent.nonempty)
      have hinside : first + size ≤ maps.used.units := by
        rw [hshows.used_units]
        exact hextent.inside
      have hset : maps.head.isSet first = true := by rwa [hshows.head first hfirst]
      have hedited := hshows.edit hinside hfirst' false
      have hremove := RegionMaps.perform_remove_of_head hset hfirst' hend hinside
      refine Or.inl ⟨first, first + size, _, hpa, ⟨hextent, h.store_written hedited m⟩, ?_⟩
      rw [Section.perform_bind_ok (perform_edit hremove m), Nat.add_sub_cancel_left]
      simp only []
      by_cases hheld : size ≤ region.used
      · have hdiff : Word.sub region.used size = .ok (region.used - size) := by
          rw [Word.sub_eq_ok_iff]
          exact ⟨hheld, rfl⟩
        rw [if_pos hheld, Section.perform_lift_bind_ok _ _ hdiff]
        rfl
      · have hdiff : Word.sub region.used size = .fault .subOverflow := if_neg hheld
        rw [if_neg hheld]
        apply Section.perform_bind_error
        rw [Section.perform_lift, hdiff]
    · have hclear : ¬ maps.head.isSet first = true := by rwa [hshows.head first hfirst]
      refine Or.inr ⟨fun t ht _ _ => ?_, ?_⟩
      · rw [hunique t ht]
        exact Bool.eq_false_of_not_eq_true hhead
      · rw [Section.perform_bind_ok
          (perform_edit (RegionMaps.perform_remove_of_not_head hclear hfirst') m), hbytes,
          store_bytesAt]
        rfl
  · refine Or.inr ⟨fun t ht _ hlt => absurd ht (hno t hlt), ?_⟩
    rw [remove, Section.perform_lift_bind_ok _ _ hunit]
    rfl

end Region

end KernelMemory
