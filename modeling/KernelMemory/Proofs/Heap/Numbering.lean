import KernelMemory.Proofs.FramePool.Construction
import KernelMemory.Proofs.Heap.Maps

/-!
# Numbered places

Frames of a pool and units of a region are numbered from a base, and every
other part of the allocators relies on the two conversions between numbers and
addresses.  `Numbers` says that they are inverse to each other on all addresses,
those between two places, below the base and behind the last place included.

A region keeps its own record in its first units: `RecordsInFront` says which
byte holds which bit of the two maps.  The main statement is
`frames_and_units_numbered`.
-/

namespace KernelMemory

/-- Places of `size` bytes each, `count` of them, numbered from `base` on. -/
structure Numbers
    (base size count : ℕ) (addressOf : ℕ → Result PhysAddr)
    (numberOf : PhysAddr → Result (Option ℕ)) : Prop where
  /-- Every place has an address, from which its number is found again. -/
  exists_address : ∀ i, i < count → ∃ pa, addressOf i = .ok pa ∧ numberOf pa = .ok (some i)
  /-- The addresses with a number are those where a place starts. -/
  number_eq_some_iff : ∀ pa i,
    numberOf pa = .ok (some i) ↔ i < count ∧ pa.val.toNat = base + size * i
  /-- All others are answered too. -/
  number_eq_none_iff : ∀ pa,
    numberOf pa = .ok none ↔ ∀ i, i < count → pa.val.toNat ≠ base + size * i

/-- Conversions are inverse if every address is answered by the place that
starts there, and every place is given its start. -/
theorem Numbers.of_cases
    {base size count : ℕ} {addressOf : ℕ → Result PhysAddr}
    {numberOf : PhysAddr → Result (Option ℕ)} (hsize : 0 < size)
    (haddress : ∀ i, i < count → ∃ pa, addressOf i = .ok pa ∧ pa.val.toNat = base + size * i)
    (hnumber : ∀ pa : PhysAddr,
      (∃ i, i < count ∧ pa.val.toNat = base + size * i ∧ numberOf pa = .ok (some i)) ∨
      ((∀ i, i < count → pa.val.toNat ≠ base + size * i) ∧ numberOf pa = .ok none)) :
    Numbers base size count addressOf numberOf := by
  have hsome (pa : PhysAddr) (i : ℕ) :
      numberOf pa = .ok (some i) ↔ i < count ∧ pa.val.toNat = base + size * i := by
    rcases hnumber pa with ⟨j, hj, hpa, heq⟩ | ⟨hnot, heq⟩
    · rw [heq, Except.ok.injEq, Option.some.injEq]
      constructor
      · rintro rfl
        exact ⟨hj, hpa⟩
      · rintro ⟨-, hi⟩
        exact Nat.eq_of_mul_eq_mul_left hsize (Nat.add_left_cancel (hpa.symm.trans hi))
    · rw [heq]
      constructor
      · intro h
        cases h
      · rintro ⟨hi, hpa⟩
        exact absurd hpa (hnot i hi)
  refine ⟨fun i hi => ?_, hsome, fun pa => ?_⟩
  · obtain ⟨pa, hpa, hstart⟩ := haddress i hi
    exact ⟨pa, hpa, (hsome pa i).2 ⟨hi, hstart⟩⟩
  · rcases hnumber pa with ⟨j, hj, hpa, heq⟩ | ⟨hnot, heq⟩
    · rw [heq]
      constructor
      · intro h
        cases h
      · intro hnot
        exact absurd hpa (hnot j hj)
    · exact iff_of_true heq hnot

/-! ## Frames -/

namespace FramePool

theorem Sound.numbers {pool : FramePool} (hpool : pool.Sound) :
    Numbers pool.base.val.toNat 4096 pool.totalFrames pool.addressOf
      (fun pa => .ok (pool.frameIndex? pa)) := by
  apply Numbers.of_cases (by decide)
  · intro i hi
    exact hpool.addressOf_eq hi
  · intro pa
    cases hindex : pool.frameIndex? pa with
    | some i =>
        obtain ⟨hi, hpa⟩ := hpool.frameIndex?_eq_some_iff.1 hindex
        exact Or.inl ⟨i, hi, hpa, rfl⟩
    | none =>
        refine Or.inr ⟨?_, rfl⟩
        intro i hi hpa
        rw [hpool.frameIndex?_eq_some_iff.2 ⟨hi, hpa⟩] at hindex
        cases hindex

section Confined

variable {pool pool' : FramePool} (h : Confined pool pool')
include h

theorem Confined.totalFrames_eq : pool'.totalFrames = pool.totalFrames := by
  rw [totalFrames, totalFrames, h.totalMemory]

theorem Confined.addressOf_eq : pool'.addressOf = pool.addressOf := by
  funext i
  rw [addressOf, addressOf, h.base]

theorem Confined.frameIndex?_eq : pool'.frameIndex? = pool.frameIndex? := by
  funext pa
  rw [frameIndex?, frameIndex?, h.base, h.totalFrames_eq]

end Confined

end FramePool

/-! ## Units -/

namespace Region

variable {region : Region}

/-- The byte with the bit of a unit in the map of used units. -/
def usedByte (region : Region) (i : ℕ) : PhysAddr := Memory.offset region.base (i / 8)

/-- The byte with the bit of a unit in the map of heads. -/
def headByte (region : Region) (i : ℕ) : PhysAddr :=
  Memory.offset region.base (region.mapBytes + i / 8)

/-- The maps of a region lie in its first units and fill them. -/
structure RecordsInFront (region : Region) : Prop where
  /-- Wherever the heap sees the maps, each has one bit for each unit and no more,
  bit `i % 8` of its byte for unit `i`. -/
  read : ∀ map, region.Visible map → ∀ m, ∃ maps, (region.maps map).perform m = (.ok maps, m) ∧
    maps.used.units = region.units ∧ 8 * maps.used.storage.size = region.units ∧
    maps.head.units = region.units ∧ 8 * maps.head.storage.size = region.units ∧
    ∀ i, i < region.units →
      maps.used.test i = .ok ((m.get (region.usedByte i)).toNat.testBit (i % 8)) ∧
      maps.head.test i = .ok ((m.get (region.headByte i)).toNat.testBit (i % 8))
  /-- No byte belongs to both. -/
  apart : ∀ i j, i < region.units → j < region.units → region.usedByte i ≠ region.headByte j
  /-- Their bytes are those of the reserved units. -/
  bytes : ∀ qa, (∃ i, i < region.units ∧ (qa = region.usedByte i ∨ qa = region.headByte i)) ↔
    region.start ≤ qa.val.toNat ∧ qa.val.toNat < region.unitStart region.reserved
  reserved : region.reserved = 4 * region.frames
  room : 252 * region.frames ≤ region.units - region.reserved

/-- The reserved units end where the maps do. -/
theorem unitStart_reserved :
    region.unitStart region.reserved = region.start + 2 * region.mapBytes := by
  rw [unitStart, reserved_eq, mapBytes_eq]
  omega

namespace Addressable

variable (h : region.Addressable)
include h

theorem create_eq : create region.base region.frames = .ok { region with used := 0 } := by
  have hstop := h.stop_lt
  have hsize : UInt64.size = 18446744073709551616 := rfl
  apply Region.create_eq
  rw [stop] at hstop
  rw [Word.count_eq]
  omega

theorem numbers :
    Numbers region.start 16 region.units region.addressOf region.unitOf := by
  apply Numbers.of_cases (by decide)
  · intro i hi
    exact ⟨_, h.addressOf_eq hi, h.toNat_unitAddress (Nat.le_of_lt hi)⟩
  · intro pa
    exact h.unitOf_cases pa

theorem toNat_usedByte {i : ℕ} (hi : i < region.units) :
    (region.usedByte i).val.toNat = region.start + i / 8 := by
  have hunits := region.units_eq_eight_mapBytes
  exact h.toNat_offset (by omega)

theorem toNat_headByte {i : ℕ} (hi : i < region.units) :
    (region.headByte i).val.toNat = region.start + region.mapBytes + i / 8 := by
  have hunits := region.units_eq_eight_mapBytes
  rw [headByte, h.toNat_offset (by omega), Nat.add_assoc]

theorem exists_mapByte_iff (qa : PhysAddr) :
    (∃ i, i < region.units ∧ (qa = region.usedByte i ∨ qa = region.headByte i)) ↔
      region.InMaps qa := by
  have hunits := region.units_eq_eight_mapBytes
  constructor
  · rintro ⟨i, hi, rfl | rfl⟩
    · rw [InMaps, h.toNat_usedByte hi]
      omega
    · rw [InMaps, h.toNat_headByte hi]
      omega
  · rintro ⟨hlow, hhigh⟩
    obtain ⟨k, hk⟩ := Nat.exists_eq_add_of_le hlow
    by_cases hfront : k < region.mapBytes
    · have hi : 8 * k < region.units := by omega
      refine ⟨8 * k, hi, Or.inl (Address.eq_of_toNat ?_)⟩
      rw [h.toNat_usedByte hi]
      omega
    · have hi : 8 * (k - region.mapBytes) < region.units := by omega
      refine ⟨8 * (k - region.mapBytes), hi, Or.inr (Address.eq_of_toNat ?_)⟩
      rw [h.toNat_headByte hi]
      omega

theorem recordsInFront : region.RecordsInFront where
  read map hvisible m := by
    obtain ⟨maps, hmaps, hshows, -⟩ := h.exists_maps hvisible m
    have hunits := region.units_eq_eight_mapBytes
    refine ⟨maps, hmaps, hshows.used_units, by rw [hshows.used_size, hunits], hshows.head_units,
      by rw [hshows.head_size, hunits], ?_⟩
    intro i hi
    constructor
    · rw [maps.used.test_of_lt (hi.trans_eq hshows.used_units.symm), hshows.used i hi]
      rfl
    · rw [maps.head.test_of_lt (hi.trans_eq hshows.head_units.symm), hshows.head i hi, headAt,
        Memory.bit, Memory.offset_offset, headByte]
  apart i j hi hj heq := by
    have hunits := region.units_eq_eight_mapBytes
    have haddress := congrArg (fun qa : PhysAddr => qa.val.toNat) heq
    simp only [h.toNat_usedByte hi, h.toNat_headByte hj] at haddress
    omega
  bytes qa := by
    rw [h.exists_mapByte_iff, unitStart_reserved, InMaps]
  reserved := region.reserved_eq
  room := by
    rw [units_eq, reserved_eq]
    omega

end Addressable

end Region

/-- A pool that is created, in every state that requests to it lead to, and a
region of whole frames that ends below the last address have their places
numbered: frames from the base of the range, units from the base of the region.
An address lies in a region exactly if it lies in its frames, and the two maps
of a region lie side by side in its first units, four for each frame. -/
theorem frames_and_units_numbered :
    (∀ (base : PhysAddr) (totalMemory : UInt64) (storage : ByteArray) (pool : FramePool),
      FramePool.create base totalMemory storage = .ok pool →
      ∀ (m m' : Machine LockName FramePool) (requests : List FramePool.Request)
        (replies : List FramePool.Reply),
        m.state = pool → FramePool.serveAll requests m = some (replies, m') →
        m'.state.totalFrames = pool.totalFrames ∧
        Numbers base.val.toNat 4096 pool.totalFrames m'.state.addressOf
          (fun pa => .ok (m'.state.frameIndex? pa))) ∧
    (∀ region : Region, region.Addressable →
      Region.create region.base region.frames = .ok { region with used := 0 } ∧
      Numbers region.base.val.toNat 16 region.units region.addressOf region.unitOf ∧
      (∀ pa : PhysAddr, region.contains pa = .ok (decide (region.base.val.toNat ≤ pa.val.toNat ∧
        pa.val.toNat < region.base.val.toNat + 4096 * region.frames))) ∧
      region.RecordsInFront) := by
  constructor
  · rintro base totalMemory storage pool hcreate m m' requests replies rfl hserve
    have hconfined := FramePool.confined_of_serveAll hserve
    have hnumbers := (FramePool.sound_of_create hcreate).1.numbers
    have hbase := (FramePool.tracksRange_of_create hcreate).range.1
    rw [hbase] at hnumbers
    rw [hconfined.addressOf_eq, hconfined.frameIndex?_eq]
    exact ⟨hconfined.totalFrames_eq, hnumbers⟩
  · intro region h
    exact ⟨h.create_eq, h.numbers, h.contains_eq, h.recordsInFront⟩

/-- A pool of thirty-two frames after a lease, and a region of one frame that
ends one page below the last address.  Starts of places have numbers; addresses
inside a place, and those where the last place ends, have none. -/
theorem exists_numbered_frame_and_unit :
    (∃ pool replies m', FramePool.create ⟨0x100000⟩ 0x20000 (Bytes.replicate 4 0) = .ok pool ∧
      FramePool.serveAll [.lease 3] (.fresh .spin pool) = some (replies, m') ∧
      m'.state.frameIndex? ⟨0x11F000⟩ = some 31 ∧ m'.state.frameIndex? ⟨0x120000⟩ = none) ∧
    ∃ region : Region, region.Addressable ∧ region.base = ⟨0xFFFFFFFFFFFFE000⟩ ∧
      region.unitOf ⟨0xFFFFFFFFFFFFE020⟩ = .ok (some 2) ∧
      region.unitOf ⟨0xFFFFFFFFFFFFE021⟩ = .ok none ∧
      region.contains ⟨0xFFFFFFFFFFFFEFFF⟩ = .ok true ∧
      region.contains ⟨0xFFFFFFFFFFFFF000⟩ = .ok false := by
  obtain ⟨hpools, hregions⟩ := frames_and_units_numbered
  constructor
  · obtain ⟨pool, hcreate, -, htotal⟩ := FramePool.usable_thirtyTwo.exists_pool
    have hfree : (Machine.fresh .spin pool : Machine LockName FramePool).locks.IsFree .frames :=
      Locks.isFree_free .spin LockName.frames
    obtain ⟨replies, m', hserve, -⟩ :=
      FramePool.exists_serveAll (m := .fresh .spin pool) (FramePool.sound_of_create hcreate).1
        hfree [.lease 3]
    obtain ⟨-, hnumbers⟩ := hpools _ _ _ pool hcreate _ m' _ replies rfl hserve
    have hcount : pool.totalFrames = 32 := by
      rw [FramePool.totalFrames, htotal]
      rfl
    rw [hcount] at hnumbers
    refine ⟨pool, replies, m', hcreate, hserve, ?_, ?_⟩
    · exact Except.ok.inj ((hnumbers.number_eq_some_iff ⟨0x11F000⟩ 31).2 (by decide))
    · exact Except.ok.inj ((hnumbers.number_eq_none_iff ⟨0x120000⟩).2 (by decide))
  · have hregion : (Region.mk ⟨0xFFFFFFFFFFFFE000⟩ 1 0).Addressable :=
      ⟨by decide, by decide, by decide⟩
    obtain ⟨-, hnumbers, hcontains, -⟩ := hregions _ hregion
    refine ⟨_, hregion, rfl, ?_, ?_, hcontains _, hcontains _⟩
    · exact (hnumbers.number_eq_some_iff _ 2).2 (by decide)
    · rw [hnumbers.number_eq_none_iff]
      intro i _ hpa
      have hinside : 0xFFFFFFFFFFFFE021 = 0xFFFFFFFFFFFFE000 + 16 * i := hpa
      omega

end KernelMemory
