import KernelMemory.Proofs.Bitmap.Search
import KernelMemory.Proofs.Heap.Layout
import KernelMemory.Proofs.Program.Solo

/-!
# The maps of a region

What the bytes in front of a region say about its units, and what the sections
that edit them do, for memory with any content.  `MapsWritten` is the only
effect an edit has: it sets the two maps and keeps every byte outside them.
The main statements are `perform_format`, `perform_place_cases` and
`perform_remove_cases`.
-/

namespace KernelMemory

namespace RegionMaps

variable {τ α : Type} {maps : RegionMaps τ} {body : Section τ α} {result : Result α} {s : τ}

theorem perform_onUsed (h : body.perform maps.used = (result, s)) :
    (onUsed body).perform maps = (result, { maps with used := s }) :=
  Section.perform_zoom_of h

theorem perform_onHead (h : body.perform maps.head = (result, s)) :
    (onHead body).perform maps = (result, { maps with head := s }) :=
  Section.perform_zoom_of h

theorem perform_bind
    {binding : Section ByteArray Bitmap} {bytes : RegionMaps ByteArray} {used head : Bitmap}
    (hused : binding.perform bytes.used = (.ok used, used.storage))
    (hhead : binding.perform bytes.head = (.ok head, head.storage)) :
    (RegionMaps.bind binding).perform bytes =
      (.ok ⟨used, head⟩, RegionMaps.bytes ⟨used, head⟩) := by
  have hfirst : (onUsed binding).perform bytes = (.ok used, ⟨used.storage, bytes.head⟩) :=
    perform_onUsed hused
  have hsecond : (onHead binding).perform ⟨used.storage, bytes.head⟩ =
      (.ok head, ⟨used.storage, head.storage⟩) := perform_onHead hhead
  rw [RegionMaps.bind, Section.perform_bind_ok hfirst, Section.perform_bind_ok hsecond]
  rfl

end RegionMaps

namespace Region

variable (region : Region)

/-- Whether a unit is used, as memory has it. -/
def usedAt (m : Memory) (i : ℕ) : Bool := m.bit region.base i

/-- Whether a unit is the first of a block, as memory has it. -/
def headAt (m : Memory) (i : ℕ) : Bool :=
  m.bit (Memory.offset region.base region.mapBytes) i

/-- The bytes of the two maps. -/
def InMaps (qa : PhysAddr) : Prop :=
  region.start ≤ qa.val.toNat ∧ qa.val.toNat < region.start + 2 * region.mapBytes

instance (qa : PhysAddr) : Decidable (region.InMaps qa) := inferInstanceAs (Decidable (_ ∧ _))

/-- Memory after an edit of the maps. -/
structure MapsWritten (m m' : Memory) (used head : ℕ → Bool) : Prop where
  used : ∀ i, i < region.units → region.usedAt m' i = used i
  head : ∀ i, i < region.units → region.headAt m' i = head i
  kept : ∀ qa, ¬ region.InMaps qa → m'.get qa = m.get qa

/-- The bytes of both maps, as memory has them. -/
def bytesAt (m : Memory) : RegionMaps ByteArray :=
  let bytes := m.read region.base (2 * region.mapBytes)
  ⟨bytes.extract 0 region.mapBytes, bytes.extract region.mapBytes bytes.size⟩

/-- The maps lie where a direct map can show them. -/
def Visible (map : DirectMap) : Prop := map.Shows region.base (2 * region.mapBytes)

instance (map : DirectMap) : Decidable (region.Visible map) :=
  inferInstanceAs (Decidable (map.Shows _ _))

/-- A free run of units at a multiple of `align`. -/
structure Fits (m : Memory) (units align start : ℕ) : Prop where
  aligned : align ∣ start
  inside : start + units ≤ region.units
  clear : ∀ i, start ≤ i → i < start + units → region.usedAt m i = false

/-- A block as the maps show it: a head outside the maps, up to the next unit
that is free or a head. -/
structure Extent (m : Memory) (first last : ℕ) : Prop where
  body : region.reserved ≤ first
  nonempty : first < last
  inside : last ≤ region.units
  head : region.headAt m first = true
  tail : ∀ j, first < j → j < last → region.usedAt m j = true ∧ region.headAt m j = false
  ends : last < region.units → region.usedAt m last = false ∨ region.headAt m last = true

/-- An edit that takes the lowest free run for a block. -/
structure Placement (m m' : Memory) (units align first : ℕ) : Prop where
  least : IsLeast {t | region.Fits m units align t} first
  maps : region.MapsWritten m m'
    (fun i => if first ≤ i ∧ i < first + units then true else region.usedAt m i)
    (fun i => if i = first then true else region.headAt m i)

/-- An edit that frees the units of a block. -/
structure Removal (m m' : Memory) (first last : ℕ) : Prop where
  extent : region.Extent m first last
  maps : region.MapsWritten m m'
    (fun i => if first ≤ i ∧ i < last then false else region.usedAt m i)
    (fun i => if i = first then false else region.headAt m i)

def withBlock (units : ℕ) : Region := { region with used := region.used + units }

def withoutBlock (units : ℕ) : Region := { region with used := region.used - units }

variable {region}

theorem units_eq_eight_mapBytes : region.units = 8 * region.mapBytes := by
  rw [units_eq, mapBytes_eq]
  omega

theorem ceilDiv_units : ceilDiv region.units 8 = region.mapBytes := rfl

theorem MapsWritten.trans
    {a b c : Memory} {used head used' head' : ℕ → Bool} (hab : region.MapsWritten a b used head)
    (hbc : region.MapsWritten b c used' head') : region.MapsWritten a c used' head' where
  used := hbc.used
  head := hbc.head
  kept qa hqa := (hbc.kept qa hqa).trans (hab.kept qa hqa)

/-- Bitmaps of a region's shape that show two given maps. -/
structure Shows (region : Region) (maps : RegionMaps Bitmap) (used head : ℕ → Bool) : Prop where
  used_units : maps.used.units = region.units
  used_size : maps.used.storage.size = region.mapBytes
  used : ∀ i, i < region.units → maps.used.isSet i = used i
  head_units : maps.head.units = region.units
  head_size : maps.head.storage.size = region.mapBytes
  head : ∀ i, i < region.units → maps.head.isSet i = head i

/-- Marking a run and one head in two bitmaps. -/
theorem Shows.edit
    {maps : RegionMaps Bitmap} {used head : ℕ → Bool} (hmaps : region.Shows maps used head)
    {first last : ℕ} (hlast : last ≤ maps.used.units) (hfirst : first < maps.head.units)
    (value : Bool) :
    region.Shows ⟨maps.used.fill first last hlast value, maps.head.put first hfirst value⟩
      (fun i => if first ≤ i ∧ i < last then value else used i)
      (fun i => if i = first then value else head i) where
  used_units := (maps.used.sameShape_fill first last hlast value).units.trans hmaps.used_units
  used_size := (maps.used.sameShape_fill first last hlast value).size.trans hmaps.used_size
  used i hi := by rw [Bitmap.isSet_fill, hmaps.used i hi]
  head_units := (maps.head.sameShape_put hfirst value).units.trans hmaps.head_units
  head_size := (maps.head.sameShape_put hfirst value).size.trans hmaps.head_size
  head i hi := by rw [Bitmap.isSet_put, hmaps.head i hi]

theorem fits_iff
    {m : Memory} {maps : RegionMaps Bitmap} {units align t : ℕ}
    (hmaps : region.Shows maps (region.usedAt m) (region.headAt m)) :
    maps.used.Fits units align t ↔ region.Fits m units align t := by
  constructor
  · rintro ⟨haligned, hinside, hclear⟩
    rw [hmaps.used_units] at hinside
    refine ⟨haligned, hinside, fun i hlow hhigh => ?_⟩
    rw [← hmaps.used i (by omega)]
    exact hclear i hlow hhigh
  · rintro ⟨haligned, hinside, hclear⟩
    refine ⟨haligned, by rw [hmaps.used_units]; exact hinside, fun i hlow hhigh => ?_⟩
    rw [hmaps.used i (by omega)]
    exact hclear i hlow hhigh

/-- What fits depends on which units are used, and on nothing else. -/
theorem fits_congr
    {m m' : Memory} {units align t : ℕ}
    (hsame : ∀ i, i < region.units → region.usedAt m' i = region.usedAt m i) :
    region.Fits m' units align t ↔ region.Fits m units align t := by
  constructor
  · rintro ⟨haligned, hinside, hclear⟩
    refine ⟨haligned, hinside, fun i hlow hhigh => ?_⟩
    rw [← hsame i (by omega)]
    exact hclear i hlow hhigh
  · rintro ⟨haligned, hinside, hclear⟩
    refine ⟨haligned, hinside, fun i hlow hhigh => ?_⟩
    rw [hsame i (by omega)]
    exact hclear i hlow hhigh

/-! ## Reading and writing the maps -/

theorem size_bytesAt (m : Memory) :
    (region.bytesAt m).used.size = region.mapBytes ∧
      (region.bytesAt m).head.size = region.mapBytes := by
  simp only [bytesAt, ByteArray.size_extract, Memory.size_read]
  omega

theorem store_bytesAt (m : Memory) : region.store (region.bytesAt m) m = m := by
  have hused : m.write region.base (region.bytesAt m).used = m := by
    apply Memory.write_of_get
    intro k hk
    simp only [bytesAt, ByteArray.getElem_extract, Memory.getElem_read, Nat.zero_add]
  have hhead : m.write (Memory.offset region.base region.mapBytes) (region.bytesAt m).head = m := by
    apply Memory.write_of_get
    intro k hk
    simp only [bytesAt, ByteArray.getElem_extract, Memory.getElem_read, Memory.offset_offset]
  rw [store, hused, hhead]

theorem perform_bindMaps
    {map : DirectMap} (h : region.Visible map) (binding : Section ByteArray Bitmap) (m : Memory) :
    (region.bindMaps map binding).perform m =
      (((RegionMaps.bind binding).perform (region.bytesAt m)).1,
        region.store ((RegionMaps.bind binding).perform (region.bytesAt m)).2 m) := by
  have hview : map.view m region.base (2 * region.mapBytes) =
      .ok (m.read region.base (2 * region.mapBytes)) := if_pos h
  rw [bindMaps, Section.perform_get_bind, Section.perform_lift_bind_ok _ _ hview]
  exact Section.perform_lift _ _

/-- Maps that the direct map cannot show are not touched. -/
theorem perform_bindMaps_of_not
    {map : DirectMap} (h : ¬ region.Visible map) (binding : Section ByteArray Bitmap)
    (m : Memory) :
    (region.bindMaps map binding).perform m = (.fault .invalidSlice, m) := by
  have hview : map.view m region.base (2 * region.mapBytes) = .fault .invalidSlice := if_neg h
  rw [bindMaps, Section.perform_get_bind, hview]
  rfl

theorem perform_edit
    {α : Type} {maps maps' : RegionMaps Bitmap} {body : Section (RegionMaps Bitmap) α}
    {result : Result α} (h : body.perform maps = (result, maps')) (m : Memory) :
    (region.edit maps body).perform m = (result, region.store maps'.bytes m) := by
  rw [edit, h]
  exact Section.perform_lift _ _

namespace Addressable

variable (h : region.Addressable)
include h

theorem mapBytes_pos : 0 < region.mapBytes := by
  have hpos := h.frames_pos
  rw [mapBytes_eq]
  omega

theorem units_pos : 0 < region.units := by
  have hpos := h.frames_pos
  rw [units_eq]
  omega

theorem start_add_two_mapBytes_lt : region.start + 2 * region.mapBytes < UInt64.size := by
  have hstop := h.stop_lt
  rw [stop] at hstop
  rw [mapBytes_eq]
  omega

theorem exists_maps {map : DirectMap} (hvisible : region.Visible map) (m : Memory) :
    ∃ maps, (region.maps map).perform m = (.ok maps, m) ∧
      region.Shows maps (region.usedAt m) (region.headAt m) ∧ maps.bytes = region.bytesAt m := by
  have hpos := h.units_pos
  have hunits := region.units_eq_eight_mapBytes
  obtain ⟨hfront, hback⟩ := region.size_bytesAt m
  obtain ⟨used, hused, hused_units, hused_storage⟩ :=
    Bitmap.exists_attach (region.bytesAt m).used hpos (by rw [ceilDiv_units, hfront])
  obtain ⟨head, hhead, hhead_units, hhead_storage⟩ :=
    Bitmap.exists_attach (region.bytesAt m).head hpos (by rw [ceilDiv_units, hback])
  have hbytes : RegionMaps.bytes ⟨used, head⟩ = region.bytesAt m := by
    rw [RegionMaps.bytes, hused_storage, hhead_storage]
  refine ⟨⟨used, head⟩, ?_, ⟨hused_units, ?_, ?_, hhead_units, ?_, ?_⟩, hbytes⟩
  · rw [maps, perform_bindMaps hvisible, RegionMaps.perform_bind hused hhead, hbytes, store_bytesAt]
  · rw [hused_storage, hfront]
  · intro i hi
    have hi8 : 0 + i / 8 < region.mapBytes := by omega
    have hin : 8 * 0 + i = i := by omega
    rw [Bitmap.isSet, hused_storage, bytesAt,
      Bytes.bit_extract _ _ (by rw [Memory.size_read]; omega), if_pos hi8, Memory.bit_read,
      if_pos (by omega), hin, usedAt]
  · rw [hhead_storage, hback]
  · intro i hi
    have hi8 : region.mapBytes + i / 8 < 2 * region.mapBytes := by omega
    have hdiv : (8 * region.mapBytes + i) / 8 = region.mapBytes + i / 8 := by omega
    have hmod : (8 * region.mapBytes + i) % 8 = i % 8 := by omega
    rw [Bitmap.isSet, hhead_storage, bytesAt, Bytes.bit_extract _ _ (Nat.le_refl _),
      Memory.size_read, if_pos hi8, Memory.bit_read, if_pos (by omega), headAt, Memory.bit,
      Memory.bit, Memory.offset_offset, hdiv, hmod]

theorem toNat_offset {k : ℕ} (hk : k < 2 * region.mapBytes) :
    (Memory.offset region.base k).val.toNat = region.start + k := by
  have hlt := h.start_add_two_mapBytes_lt
  exact Memory.toNat_offset (by rw [start] at hlt; omega)

theorem usedAt_congr
    {m m' : Memory} (hkept : ∀ qa, region.InMaps qa → m'.get qa = m.get qa) {i : ℕ}
    (hi : i < region.units) : region.usedAt m' i = region.usedAt m i := by
  have hunits := region.units_eq_eight_mapBytes
  apply Memory.bit_congr
  apply hkept
  rw [InMaps, h.toNat_offset (by omega)]
  omega

theorem headAt_congr
    {m m' : Memory} (hkept : ∀ qa, region.InMaps qa → m'.get qa = m.get qa) {i : ℕ}
    (hi : i < region.units) : region.headAt m' i = region.headAt m i := by
  have hunits := region.units_eq_eight_mapBytes
  apply Memory.bit_congr
  rw [Memory.offset_offset]
  apply hkept
  rw [InMaps, h.toNat_offset (by omega)]
  omega

/-- Maps that show the same have the same bytes. -/
theorem get_eq_of_inMaps
    {m m' : Memory} {qa : PhysAddr}
    (hused : ∀ i, i < region.units → region.usedAt m' i = region.usedAt m i)
    (hhead : ∀ i, i < region.units → region.headAt m' i = region.headAt m i)
    (hqa : region.InMaps qa) : m'.get qa = m.get qa := by
  have hunits := region.units_eq_eight_mapBytes
  rw [InMaps] at hqa
  obtain ⟨k, hk⟩ := Nat.exists_eq_add_of_le hqa.1
  have haddress : qa = Memory.offset region.base k :=
    Address.eq_of_toNat (hk.trans (h.toNat_offset (by omega)).symm)
  rw [haddress]
  apply Bytes.eq_of_testBit
  intro j hj
  by_cases hfront : k < region.mapBytes
  · have hdiv : (8 * k + j) / 8 = k := by omega
    have hmod : (8 * k + j) % 8 = j := by omega
    have hbit := hused (8 * k + j) (by omega)
    rwa [usedAt, usedAt, Memory.bit, Memory.bit, hdiv, hmod] at hbit
  · have hdiv : (8 * (k - region.mapBytes) + j) / 8 = k - region.mapBytes := by omega
    have hmod : (8 * (k - region.mapBytes) + j) % 8 = j := by omega
    have hbyte : region.mapBytes + (k - region.mapBytes) = k := by omega
    have hbit := hhead (8 * (k - region.mapBytes) + j) (by omega)
    rwa [headAt, headAt, Memory.bit, Memory.bit, hdiv, hmod, Memory.offset_offset, hbyte] at hbit

/-- An edit that leaves both maps as they were leaves every byte as it was. -/
theorem get_eq_of_mapsWritten
    {m m' : Memory} (hwritten : region.MapsWritten m m' (region.usedAt m) (region.headAt m))
    (qa : PhysAddr) : m'.get qa = m.get qa := by
  by_cases hqa : region.InMaps qa
  · exact h.get_eq_of_inMaps hwritten.used hwritten.head hqa
  · exact hwritten.kept qa hqa

theorem store_written
    {maps : RegionMaps Bitmap} {used head : ℕ → Bool} (hmaps : region.Shows maps used head)
    (m : Memory) :
    region.MapsWritten m (region.store maps.bytes m) used head := by
  have hlt := h.start_add_two_mapBytes_lt
  have hpos := h.mapBytes_pos
  have hunits := region.units_eq_eight_mapBytes
  have hhead_start := h.toNat_offset (k := region.mapBytes) (by omega)
  have hused_size : maps.used.storage.size ≤ UInt64.size := by
    rw [hmaps.used_size]
    omega
  have hhead_size : maps.head.storage.size ≤ UInt64.size := by
    rw [hmaps.head_size]
    omega
  have hstore : region.store maps.bytes m = (m.write region.base maps.used.storage).write
      (Memory.offset region.base region.mapBytes) maps.head.storage := rfl
  -- the second write touches nothing outside the second half of the maps
  have hsecond (m' : Memory) (qa : PhysAddr)
      (hqa : ¬ (region.start + region.mapBytes ≤ qa.val.toNat ∧
        qa.val.toNat < region.start + 2 * region.mapBytes)) :
      (m'.write (Memory.offset region.base region.mapBytes) maps.head.storage).get qa =
        m'.get qa := by
    apply Memory.get_write_of_le _ hhead_size
    rw [hmaps.head_size]
    by_contra hin
    rw [not_le, Memory.distance_lt_iff (by omega)] at hin
    omega
  refine ⟨fun i hi => ?_, fun i hi => ?_, fun qa hqa => ?_⟩
  · have hi8 : i / 8 < region.mapBytes := by omega
    have hbyte := h.toNat_offset (k := i / 8) (by omega)
    rw [usedAt, hstore, Memory.bit_congr (hsecond _ _ (by omega)),
      Memory.bit_write _ _ hused_size (by rwa [hmaps.used_size])]
    exact hmaps.used i hi
  · rw [headAt, hstore, Memory.bit_write _ _ hhead_size (by rw [hmaps.head_size]; omega)]
    exact hmaps.head i hi
  · rw [InMaps] at hqa
    rw [hstore, hsecond _ _ (by omega)]
    apply Memory.get_write_of_le _ hused_size
    rw [hmaps.used_size]
    by_contra hin
    rw [start] at hqa hlt
    rw [not_le, Memory.distance_lt_iff (by omega)] at hin
    omega

end Addressable

end Region

end KernelMemory
