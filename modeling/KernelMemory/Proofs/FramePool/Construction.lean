import KernelMemory.Kernel
import KernelMemory.Proofs.Bitmap.Vector
import KernelMemory.Proofs.FramePool.Vector
import KernelMemory.Proofs.Program.Respects

/-!
# Creating a frame pool

Which ranges a pool accepts, what it makes of the storage that it is lent, and
which frames it then has.  The size of the storage, the bits of the bitmap and
the addresses of the frames are each computed on their own, with divisions that
round down and up; `TracksRange` says that they agree, down to a partial last
frame and the padding of a partial last byte.

The padding stays as it was for as long as the pool lives: `Confined` is what
every piece of every operation respects.  The main statement is
`creating_iff_tracksRange`.
-/

namespace KernelMemory

namespace Bitmap

theorem getElem_clearFront
    {storage : ByteArray} {n k : ℕ} (hk : k < storage.size)
    (hk' : k < (clearFront storage n).size) :
    (clearFront storage n)[k] = if k < n then 0 else storage[k] := by
  apply Bytes.eq_of_testBit
  intro j hj
  have hbyte : (8 * k + j) / 8 = k := by omega
  rw [← Bytes.bit_eight_mul_add hk' hj, bit_clearFront, hbyte]
  split_ifs
  · exact (Nat.zero_testBit j).symm
  · exact Bytes.bit_eight_mul_add hk hj

/-- What no operation of a bitmap changes: its shape, and the bits that it does
not track. -/
structure Confined (map map' : Bitmap) : Prop where
  shape : SameShape map' map
  padding : ∀ i, map.units ≤ i → map'.isSet i = map.isSet i

theorem Confined.refl (map : Bitmap) : Confined map map := ⟨.refl map, fun _ _ => rfl⟩

theorem Confined.trans {a b c : Bitmap} (hab : Confined a b) (hbc : Confined b c) :
    Confined a c where
  shape := hbc.shape.trans hab.shape
  padding i hi := (hbc.padding i (hab.shape.units.trans_le hi)).trans (hab.padding i hi)

theorem respects_setRange (start count : ℕ) (value : Bool) :
    (setRange start count value).Respects Confined := by
  intro map
  by_cases hinside : start + count ≤ map.units
  · rw [map.perform_setRange_of_le hinside]
    refine ⟨map.sameShape_fill _ _ hinside value, fun i hi => ?_⟩
    rw [isSet_fill, if_neg (by omega)]
  · rw [map.perform_setRange_of_not hinside]
    exact .refl map

theorem respects_alloc (count : ℕ) : (alloc count).Respects Confined := by
  intro map
  rw [alloc, allocAligned, Section.perform_get_bind]
  split_ifs
  · exact .refl map
  · exact .refl map
  · rcases hfind : map.findRun count 1 0 with failure | found
    · rw [Section.perform_bind_error (Section.perform_lift _ _)]
      exact .refl map
    · rw [Section.perform_lift_bind_ok _ _ rfl]
      cases found with
      | none => exact .refl map
      | some start =>
          refine (respects_setRange start count true).bind (fun _ s => ?_)
            (fun _ _ _ => .trans) map
          exact .refl s
  · exact .refl map

end Bitmap

namespace FramePool

open Program

/-! ## What no operation changes -/

/-- What no operation of a pool changes: its range, the shape of its bitmap,
and the bits that stand for no frame. -/
structure Confined (pool pool' : FramePool) : Prop where
  base : pool'.base = pool.base
  totalMemory : pool'.totalMemory = pool.totalMemory
  shape : Bitmap.SameShape pool'.bitmap pool.bitmap
  padding : ∀ i, pool.bitmap.units ≤ i → pool'.bitmap.isSet i = pool.bitmap.isSet i

theorem Confined.refl (pool : FramePool) : Confined pool pool :=
  ⟨rfl, rfl, .refl _, fun _ _ => rfl⟩

theorem Confined.trans {a b c : FramePool} (hab : Confined a b) (hbc : Confined b c) :
    Confined a c where
  base := hbc.base.trans hab.base
  totalMemory := hbc.totalMemory.trans hab.totalMemory
  shape := hbc.shape.trans hab.shape
  padding i hi := (hbc.padding i (hab.shape.units.trans_le hi)).trans (hab.padding i hi)

/-- A section on the bitmap keeps the confines of the pool if it keeps those of
the bitmap, and so does one that goes on to count. -/
theorem respects_onBitmap
    {α β : Type} {body : Section Bitmap α} (h : body.Respects Bitmap.Confined)
    (count : Counter → Counter) (answer : α → β) :
    (do
      let a ← onBitmap body
      modify fun pool : FramePool => { pool with allocated := count pool.allocated }
      return answer a).Respects Confined := by
  refine Section.Respects.bind (fun pool => ?_) (fun a pool => ⟨rfl, rfl, .refl _, fun _ _ => rfl⟩)
    fun _ _ _ => .trans
  rw [onBitmap, Section.perform_zoom]
  exact ⟨rfl, rfl, (h pool.bitmap).shape, (h pool.bitmap).padding⟩

theorem respects_claim (count : ℕ) : (claim count).Respects Confined :=
  respects_onBitmap (Bitmap.respects_alloc count) (fun c => (c.add (UInt64.ofNat count)).2) id

theorem respects_reclaim (index count : ℕ) : (reclaim index count).Respects Confined := by
  intro pool
  rw [reclaim, Section.perform_get_bind]
  split_ifs
  · exact .refl pool
  · exact respects_onBitmap (Bitmap.respects_setRange index count false)
      (fun c => (c.sub (UInt64.ofNat count)).2) (fun _ => true) pool

theorem respects_occupy (index count : ℕ) : (occupy index count).Respects Confined := by
  intro pool
  rw [occupy, Section.perform_get_bind]
  split_ifs
  · exact .refl pool
  · exact .refl pool
  · exact respects_onBitmap (Bitmap.respects_setRange index count true)
      (fun c => (c.add (UInt64.ofNat count)).2) id pool

/-- Every piece of every operation keeps the confines of a pool. -/
theorem Request.respects (request : Request) : request.program.Respects Confined := by
  have hinspect {α : Type} (f : FramePool → α) :
      (inspect f : Program LockName FramePool α).Respects Confined :=
    (respects_inspect f).mono fun pool pool' heq => heq ▸ .refl pool
  have hlease (count : ℕ) : (FramePool.lease count).Respects Confined := by
    apply (respects_critical (respects_claim count)).withLock.outcome.bind
    intro result
    split
    · exact (hinspect _).bind fun pa => Respects.bind trivial fun _ => trivial
    · exact trivial
    · exact trivial
  cases request with
  | lease count => exact hlease count
  | leaseOne => exact hlease 1
  | giveBack pa count =>
      apply (hinspect _).bind
      intro index
      split
      · exact trivial
      · apply (respects_critical (respects_reclaim _ count)).withLock.bind
        intro leased
        split <;> exact trivial
  | reserve pa count =>
      apply (hinspect _).bind
      intro index
      split
      · exact trivial
      · exact (respects_critical (respects_occupy _ count)).withLock.bind fun _ => trivial

theorem confined_of_serveAll
    {requests : List Request} {replies : List Reply} {m m' : Machine LockName FramePool}
    (h : serveAll requests m = some (replies, m')) : Confined m.state m'.state := by
  induction requests generalizing m replies with
  | nil =>
      cases h
      exact .refl _
  | cons request requests ih =>
      obtain ⟨⟨answer, m₁⟩, hrun, hrest⟩ := Option.bind_eq_some_iff.1 h
      obtain ⟨⟨replies', m₂⟩, hall, hout⟩ := Option.bind_eq_some_iff.1 hrest
      cases hout
      have hfirst : Confined m.state m₁.state :=
        request.respects.of_run Confined.refl (fun _ _ _ => Confined.trans) hrun
      exact hfirst.trans (ih hall)

/-! ## Sizes -/

theorem bitmapBytesFor_mono {a b : UInt64} (h : a ≤ b) : bitmapBytesFor a ≤ bitmapBytesFor b := by
  rw [UInt64.le_iff_toNat_le] at h
  simp only [bitmapBytesFor, framesIn_eq, ceilDiv]
  omega

/-- The bytes of a bitmap have a bit for every frame, and no byte too many. -/
theorem framesIn_between (totalMemory : UInt64) :
    framesIn totalMemory ≤ 8 * bitmapBytesFor totalMemory ∧
      8 * bitmapBytesFor totalMemory < framesIn totalMemory + 8 := by
  rw [bitmapBytesFor, ceilDiv]
  omega

theorem usable_iff
    {base : PhysAddr} {totalMemory : UInt64} {storage : ByteArray} :
    Usable base totalMemory storage ↔
      4096 ∣ base.val.toNat ∧ base.val.toNat + totalMemory.toNat < 2 ^ 64 ∧
        4096 ≤ totalMemory.toNat ∧ bitmapBytesFor totalMemory ≤ storage.size := by
  have hframes : 0 < framesIn totalMemory ↔ 4096 ≤ totalMemory.toNat := by
    rw [framesIn_eq]
    omega
  constructor
  · intro h
    exact ⟨h.aligned, h.inSpace, hframes.1 h.nonempty, h.tracked⟩
  · rintro ⟨haligned, hspace, hsize, htracked⟩
    exact ⟨haligned, hspace, hframes.2 hsize, htracked⟩

/-- The static bitmap has a bit for every frame that a kernel may have. -/
theorem bitmapBytesFor_le_max
    {totalMemory : UInt64} (h : totalMemory ≤ Parameters.maxPhysicalMemory) :
    bitmapBytesFor totalMemory ≤ Parameters.maxFrameBitmapBytes := by
  apply (bitmapBytesFor_mono h).trans_eq
  rw [bitmapBytesFor, framesIn, Parameters.maxFrameBitmapBytes]

/-! ## New pools -/

/-- What a new pool has made of a range and of the storage that it was lent. -/
structure TracksRange
    (base : PhysAddr) (totalMemory : UInt64) (storage : ByteArray) (pool : FramePool) : Prop where
  range : pool.base = base ∧ pool.totalMemory = totalMemory
  size : pool.bitmap.storage.size = storage.size
  /-- The front of the storage is cleared, and nothing else is written. -/
  bytes : ∀ k (hk : k < storage.size) (hpool : k < pool.bitmap.storage.size),
    pool.bitmap.storage[k] = if k < bitmapBytesFor totalMemory then 0 else storage[k]
  units : pool.bitmap.units = pool.totalFrames
  /-- The addresses with an index are those of the whole frames in the range. -/
  managed : ∀ pa : PhysAddr, (∃ i, pool.frameIndex? pa = some i) ↔
    4096 ∣ pa.val.toNat ∧ base.val.toNat ≤ pa.val.toNat ∧
      pa.val.toNat + 4096 ≤ base.val.toNat + totalMemory.toNat
  /-- Frame `i` lies in the range, has bit `i` in the cleared bytes, and shares
  it with no other. -/
  frame : ∀ i, i < pool.totalFrames → ∃ pa, pool.addressOf i = .ok pa ∧
    pool.frameIndex? pa = some i ∧ pa.val.toNat = base.val.toNat + 4096 * i ∧
    pa.val.toNat + 4095 < base.val.toNat + totalMemory.toNat ∧
    i / 8 < bitmapBytesFor totalMemory ∧ pool.bitmap.test i = .ok false ∧
    ∀ value, ∃ map, (Bitmap.set i value).perform pool.bitmap = (.ok (), map) ∧
      ∀ j, map.isSet j = if j = i then value else pool.bitmap.isSet j
  /-- No other bit can be read or written. -/
  outside : ∀ i, pool.totalFrames ≤ i →
    pool.bitmap.test i = .refuse (.outOfRange i pool.totalFrames) ∧
    ∀ value, (Bitmap.set i value).perform pool.bitmap =
      (.refuse (.outOfRange i pool.totalFrames), pool.bitmap)
  /-- Nor will it be, whatever is asked of the pool. -/
  lasting : ∀ m : Machine LockName FramePool, m.state = pool → m.locks.IsFree .frames →
    ∀ requests, ∃ replies m', serveAll requests m = some (replies, m') ∧
      Confined pool m'.state

section Creation

variable {base : PhysAddr} {totalMemory : UInt64} {storage : ByteArray} {pool : FramePool}

theorem exists_frameIndex?_iff
    (hpool : pool.Sound) (pa : PhysAddr) :
    (∃ i, pool.frameIndex? pa = some i) ↔
      4096 ∣ pa.val.toNat ∧ pool.base.val.toNat ≤ pa.val.toNat ∧
        pa.val.toNat + 4096 ≤ pool.base.val.toNat + pool.totalMemory.toNat := by
  have haligned := hpool.aligned
  simp only [hpool.frameIndex?_eq_some_iff, frameStart, totalFrames, framesIn_eq]
  constructor
  · rintro ⟨i, hi, hpa⟩
    omega
  · rintro ⟨hdvd, hlow, hhigh⟩
    exact ⟨(pa.val.toNat - pool.base.val.toNat) / 4096, by omega, by omega⟩

theorem tracksRange_of_create
    (h : create base totalMemory storage = .ok pool) :
    TracksRange base totalMemory storage pool := by
  obtain ⟨hpool, hfree⟩ := sound_of_create h
  rcases create_cases base totalMemory storage with
    ⟨husable, pool', hcreate, rfl, rfl, -, -, hstorage⟩ | ⟨-, why, hcreate⟩
  swap
  · rw [h] at hcreate
    cases hcreate
  obtain rfl : pool = pool' := Except.ok.inj (h.symm.trans hcreate)
  have hsize : pool.bitmap.storage.size = storage.size := by
    rw [hstorage, Bitmap.size_clearFront husable.tracked]
  have hbytes := framesIn_between pool.totalMemory
  have htotal := pool.totalFrames_le
  refine {
    range := ⟨rfl, rfl⟩
    size := hsize
    bytes := ?_
    units := hpool.units
    managed := exists_frameIndex?_iff hpool
    frame := ?_
    outside := ?_
    lasting := ?_ }
  · intro k hk hcleared
    simp only [hstorage]
    exact Bitmap.getElem_clearFront hk _
  · intro i hi
    obtain ⟨pa, haddress, hpa⟩ := hpool.addressOf_eq hi
    have hunit : i < pool.bitmap.units := by rwa [hpool.units]
    have hclear := isSet_eq_false_of_leasedFrames_eq_empty hfree hunit
    refine ⟨pa, haddress, hpool.frameIndex?_eq_some_iff.2 ⟨hi, hpa⟩, hpa, ?_, ?_, ?_, ?_⟩
    · rw [hpa, frameStart]
      omega
    · rw [totalFrames] at hi
      omega
    · rw [Bitmap.test_of_lt _ hunit, hclear]
    · intro value
      exact ⟨_, Bitmap.perform_set_of_lt _ hunit value, Bitmap.isSet_put _ hunit value⟩
  · intro i hi
    have hunit : ¬ i < pool.bitmap.units := by
      rw [hpool.units]
      omega
    constructor
    · rw [Bitmap.test, dif_neg hunit, Bitmap.indexRefusal, hpool.units]
    · intro value
      rw [Bitmap.perform_set_of_not _ hunit, Bitmap.indexRefusal, hpool.units]
  · rintro m rfl hlocks requests
    obtain ⟨replies, m', hall, -⟩ := exists_serveAll hpool hlocks requests
    exact ⟨replies, m', hall, confined_of_serveAll hall⟩

/-- Creating a pool ends in one of two ways.  A range of frames that does not
reach the end of the address space, with at least one whole frame and a bit of
storage for each, is accepted and tracked as it is.  Everything else is refused,
and the storage keeps every byte.  The static storage of a kernel is never what
a range is refused for. -/
theorem creating_iff_tracksRange
    (base : PhysAddr) (totalMemory : UInt64) (storage : ByteArray) :
    (((4096 ∣ base.val.toNat ∧ base.val.toNat + totalMemory.toNat < 2 ^ 64 ∧
        4096 ≤ totalMemory.toNat ∧ bitmapBytesFor totalMemory ≤ storage.size) ∧
      ∃ pool, (creating base totalMemory).perform storage = (.ok pool, pool.bitmap.storage) ∧
        TracksRange base totalMemory storage pool) ∨
    (¬ (4096 ∣ base.val.toNat ∧ base.val.toNat + totalMemory.toNat < 2 ^ 64 ∧
        4096 ≤ totalMemory.toNat ∧ bitmapBytesFor totalMemory ≤ storage.size) ∧
      ∃ why, (creating base totalMemory).perform storage =
        (.refuse (.invalidArgument why), storage))) ∧
    (totalMemory ≤ Parameters.maxPhysicalMemory →
      ∀ memory, bitmapBytesFor totalMemory ≤ (Kernel.boot memory).bitmapStorage.size) := by
  constructor
  · simp only [← usable_iff]
    rcases perform_creating_cases base totalMemory storage with
      ⟨husable, pool, hrun, -⟩ | ⟨hunusable, why, hrun⟩
    · have hcreate : create base totalMemory storage = .ok pool := by rw [create, hrun]
      exact Or.inl ⟨husable, pool, hrun, tracksRange_of_create hcreate⟩
    · exact Or.inr ⟨hunusable, why, hrun⟩
  · intro h memory
    rw [Kernel.boot, Bytes.size_replicate]
    exact bitmapBytesFor_le_max h

/-- Three frames and a part of a fourth, over two bytes of storage that are
full: the first byte is cleared, the second is kept, and the third frame is the
last. -/
theorem creating_tracksRange_of_partial :
    (0x3064 : UInt64) ≤ Parameters.maxPhysicalMemory ∧
    (∀ memory, bitmapBytesFor 0x3064 ≤ (Kernel.boot memory).bitmapStorage.size) ∧
    ∃ pool, (creating ⟨0x200000⟩ 0x3064).perform ⟨#[0xFF, 0xFF]⟩ =
        (.ok pool, pool.bitmap.storage) ∧
      TracksRange ⟨0x200000⟩ 0x3064 ⟨#[0xFF, 0xFF]⟩ pool ∧ pool.totalFrames = 3 := by
  have hmax : (0x3064 : UInt64) ≤ Parameters.maxPhysicalMemory := by decide
  obtain ⟨hcreating, hboot⟩ := creating_iff_tracksRange ⟨0x200000⟩ 0x3064 ⟨#[0xFF, 0xFF]⟩
  refine ⟨hmax, hboot hmax, ?_⟩
  rcases hcreating with ⟨-, pool, hrun, htracks⟩ | ⟨hunusable, -⟩
  · refine ⟨pool, hrun, htracks, ?_⟩
    rw [totalFrames, htracks.range.2]
    rfl
  · exact absurd (by decide) hunusable

end Creation

end FramePool

end KernelMemory
