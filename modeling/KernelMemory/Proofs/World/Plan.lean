import KernelMemory.Proofs.World.FirstFit
import KernelMemory.Proofs.World.Teardown

/-!
# The plan of a heap

A heap and its frame pool as they look from the start of the pool.  A `Plan`
has no memory, and its addresses are distances; which frames are taken, where a
block fits and what a call answers are read off the leases of the regions and
the set of live blocks.  `Plan.perform` is a heap of its own: short, slow, and
without maps, counters or locks.

`World.plan` is what a world looks like.
-/

namespace KernelMemory

open Finset RegionTable

/-! ## Addresses from a base -/

namespace Address

/-- An address as it looks from a base. -/
def seenFrom (pa base : PhysAddr) : PhysAddr := ⟨pa.val - base.val⟩

/-- The address that looks like `pa` from a base. -/
def shownAt (pa base : PhysAddr) : PhysAddr := ⟨base.val + pa.val⟩

theorem seenFrom_eq_iff {pa base qa : PhysAddr} :
    pa.seenFrom base = qa ↔ pa = qa.shownAt base := by
  obtain ⟨a⟩ := pa
  obtain ⟨b⟩ := base
  obtain ⟨c⟩ := qa
  simp only [seenFrom, shownAt, Address.mk.injEq]
  constructor
  · rintro rfl
    rw [UInt64.add_comm, UInt64.sub_add_cancel]
  · rintro rfl
    rw [UInt64.add_comm, UInt64.add_sub_cancel]

theorem seenFrom_shownAt (pa base : PhysAddr) : (pa.shownAt base).seenFrom base = pa :=
  seenFrom_eq_iff.2 rfl

theorem toNat_seenFrom {pa base : PhysAddr} (h : base.val.toNat ≤ pa.val.toNat) :
    (pa.seenFrom base).val.toNat = pa.val.toNat - base.val.toNat :=
  UInt64.toNat_sub_of_le _ _ (UInt64.le_iff_toNat_le.2 h)

theorem seenFrom_of_toNat {pa base : PhysAddr} {n : ℕ}
    (h : pa.val.toNat = base.val.toNat + n) : pa.seenFrom base = ⟨UInt64.ofNat n⟩ := by
  have hlt : pa.val.toNat < UInt64.size := pa.val.toNat_lt
  refine eq_of_toNat ?_
  rw [toNat_seenFrom (by omega), UInt64.toNat_ofNat_of_lt' (by omega)]
  omega

end Address

namespace Block

def seenFrom (b : Block) (base : PhysAddr) : Block := ⟨b.address.seenFrom base, b.units⟩

theorem start_seenFrom {b : Block} {base : PhysAddr} (h : base.val.toNat ≤ b.start) :
    (b.seenFrom base).start = b.start - base.val.toNat :=
  Address.toNat_seenFrom h

theorem seenFrom_injective (base : PhysAddr) : Function.Injective (seenFrom · base) := by
  rintro ⟨pa, n⟩ ⟨qa, m⟩ h
  simp only [seenFrom, Block.mk.injEq] at h
  rw [Address.seenFrom_eq_iff] at h
  obtain ⟨rfl, rfl⟩ := h
  rw [Block.mk.injEq]
  exact ⟨(Address.seenFrom_eq_iff.1 rfl).symm, rfl⟩

end Block

/-! ## Searching from below -/

/-- The first place that a search answers from. -/
theorem findSome?_eq_some_of_getElem?
    {α β : Type} {f : α → Option β} {l : List α} {i : ℕ} {a : α} {b : β}
    (ha : l[i]? = some a) (hb : f a = some b)
    (hbefore : ∀ j c, j < i → l[j]? = some c → f c = none) : l.findSome? f = some b := by
  obtain ⟨hi, rfl⟩ := List.getElem?_eq_some_iff.1 ha
  refine List.findSome?_eq_some_iff.2 ⟨l.take i, l[i], l.drop (i + 1), ?_, hb, ?_⟩
  · rw [← List.drop_eq_getElem_cons, List.take_append_drop]
  · intro c hc
    obtain ⟨j, hj⟩ := List.mem_iff_getElem?.1 hc
    rw [List.getElem?_take, Option.ite_none_right_eq_some] at hj
    exact hbefore j c hj.1 hj.2

/-! ## Plans -/

/-- A run of frames that a heap has leased, by index. -/
structure Lease where
  first : ℕ
  count : ℕ
  deriving DecidableEq

namespace Lease

def frames (lease : Lease) : Finset ℕ := Ico lease.first (lease.first + lease.count)

/-- Whether a block lies in the region on a lease, behind its maps. -/
def Holds (lease : Lease) (b : Block) : Prop :=
  4096 * lease.first + 64 * lease.count ≤ b.start ∧
    b.stop ≤ 4096 * (lease.first + lease.count)

instance (lease : Lease) (b : Block) : Decidable (lease.Holds b) :=
  inferInstanceAs (Decidable (_ ∧ _))

end Lease

/-- What a client asks of a heap or its frame pool.  Addresses are distances
from the start of the pool. -/
inductive Command where
  | allocAligned (size align : UInt64)
  | alloc (size : UInt64)
  | free (pa : PhysAddr)
  | releaseEmptyRegions
  | leaseFrames (count : ℕ)
  | giveBackFrames (pa : PhysAddr) (count : ℕ)
  | reserveFrames (pa : PhysAddr) (count : ℕ)

/-- What a command answers when it succeeds. -/
inductive Reply where
  /-- An address, as a distance from the start of the pool. -/
  | address (pa : PhysAddr)
  | number (n : ℕ)
  | done
  deriving DecidableEq

/-- A heap and its frame pool as they look from the start of the pool. -/
@[ext]
structure Plan where
  /-- The number of frames in the pool. -/
  total : ℕ
  /-- The leases behind the slots of the region table. -/
  leases : List (Option Lease)
  /-- The live blocks. -/
  blocks : Finset Block
  /-- The frames that direct callers hold. -/
  held : Finset ℕ

namespace Plan

variable (p : Plan)

/-- The frames that are not free. -/
def taken : Finset ℕ := p.held ∪ p.leases.reduceOption.toFinset.biUnion Lease.frames

/-- The lowest free run of `count` frames. -/
def run? (count : ℕ) : Option ℕ :=
  lowest? (p.total + 1) fun t =>
    decide (t + count ≤ p.total ∧ Disjoint p.taken (Ico t (t + count)))

/-- The frame that starts at an address. -/
def frame? (pa : PhysAddr) : Option ℕ :=
  if 4096 ∣ pa.val.toNat ∧ pa.val.toNat / 4096 < p.total then
    some (pa.val.toNat / 4096)
  else
    none

/-- A unit of a lease that is neither under the maps nor in a block. -/
def Clear (lease : Lease) (i : ℕ) : Prop :=
  4 * lease.count ≤ i ∧ ∀ b ∈ p.blocks, ¬ b.Covers (4096 * lease.first + 16 * i)

instance (lease : Lease) (i : ℕ) : Decidable (p.Clear lease i) :=
  inferInstanceAs (Decidable (_ ∧ _))

/-- The lowest run of `units` clear units of a lease at a multiple of `align`. -/
def room? (units align : ℕ) (lease : Lease) : Option ℕ :=
  lowest? (256 * lease.count + 1) fun t =>
    decide (align ∣ t ∧ t + units ≤ 256 * lease.count ∧
      ∀ i ∈ Ico t (t + units), p.Clear lease i)

/-- Where the first lease with room for a block has it. -/
def firstFit? (units align : ℕ) : Option ℕ :=
  p.leases.findSome? fun content => content.bind fun lease =>
    (p.room? units align lease).map fun t => 4096 * lease.first + 16 * t

/-- The lease of a new region with room for a block, and its slot. -/
def growth? (units align : ℕ) : Option (ℕ × Lease) := do
  let slot ← p.leases.findIdx? (·.isNone)
  let count ← (Region.framesFor units align).toOption
  let first ← p.run? count
  return (slot, ⟨first, count⟩)

/-- The plan with a block more. -/
def placing (start units : ℕ) : Plan :=
  { p with blocks := insert ⟨⟨UInt64.ofNat start⟩, units⟩ p.blocks }

/-- Allocates a block by first fit, in a new region if no other has room. -/
def allocate (units align : ℕ) : Result Reply × Plan :=
  match p.firstFit? units align with
  | some start => (.ok (.address ⟨UInt64.ofNat start⟩), p.placing start units)
  | none =>
      match p.growth? units align with
      | some (slot, lease) =>
          let start := 4096 * lease.first + 16 * (ceilDiv (4 * lease.count) align * align)
          (.ok (.address ⟨UInt64.ofNat start⟩),
            { p with leases := p.leases.set slot (some lease) }.placing start units)
      | none => (.refuse .outOfMemory, p)

/-- Allocates a block of `size` bytes at a multiple of `align`. -/
def allocAligned (size align : UInt64) : Result Reply × Plan :=
  if size = 0 then
    (.refuse (.invalidArgument .emptyBlock), p)
  else if align.toNat.isPowerOfTwo ∧ align.toNat ≤ 4096 then
    p.allocate (ceilDiv size.toNat 16) (max (align.toNat / 16) 1)
  else
    (.refuse (.invalidArgument .alignmentUnsupported), p)

def free (pa : PhysAddr) : Result Reply × Plan :=
  if ∃ b ∈ p.blocks, b.address = pa then
    (.ok .done, { p with blocks := p.blocks.filter (·.address ≠ pa) })
  else
    (.refuse (.invalidFree pa), p)

/-- Whether a lease holds no block. -/
def vacant (lease : Lease) : Bool := decide (∀ b ∈ p.blocks, ¬ lease.Holds b)

/-- Gives up the leases without blocks, and counts them. -/
def releaseEmptyRegions : Result Reply × Plan :=
  (.ok (.number (p.leases.reduceOption.filter p.vacant).length),
    { p with leases := p.leases.map (Option.filter fun lease => !p.vacant lease) })

def leaseFrames (count : ℕ) : Result Reply × Plan :=
  if count = 0 then
    (.refuse (.invalidArgument .emptyRun), p)
  else
    match p.run? count with
    | some first =>
        (.ok (.address ⟨UInt64.ofNat (4096 * first)⟩),
          { p with held := p.held ∪ Ico first (first + count) })
    | none => (.refuse .outOfMemory, p)

/-- Takes a run of frames back if all of it is taken. -/
def giveBackFrames (pa : PhysAddr) (count : ℕ) : Result Reply × Plan :=
  match p.frame? pa with
  | none => (.refuse (.invalidFree pa), p)
  | some index =>
      if 0 < count ∧ index + count ≤ p.total ∧ Ico index (index + count) ⊆ p.taken then
        (.ok .done, { p with held := p.held \ Ico index (index + count) })
      else
        (.refuse (.invalidFree pa), p)

/-- Takes a run of frames if all of it is free. -/
def reserveFrames (pa : PhysAddr) (count : ℕ) : Result Reply × Plan :=
  match p.frame? pa with
  | none => (.refuse (.invalidArgument .reservationOutside), p)
  | some index =>
      if ¬ (0 < count ∧ index + count ≤ p.total) then
        (.refuse (.invalidArgument .reservationOutside), p)
      else if Disjoint p.taken (Ico index (index + count)) then
        (.ok .done, { p with held := p.held ∪ Ico index (index + count) })
      else
        (.refuse (.invalidArgument .reservationOverlaps), p)

/-- What a command answers, and what it leaves. -/
def perform : Command → Result Reply × Plan
  | .allocAligned size align => p.allocAligned size align
  | .alloc size => p.allocAligned size (UInt64.ofNat Parameters.unitBytes)
  | .free pa => p.free pa
  | .releaseEmptyRegions => p.releaseEmptyRegions
  | .leaseFrames count => p.leaseFrames count
  | .giveBackFrames pa count => p.giveBackFrames pa count
  | .reserveFrames pa count => p.reserveFrames pa count

/-- A return that would succeed is for frames that direct callers hold. -/
def Permits : Command → Prop
  | .giveBackFrames pa count => ∀ index, p.frame? pa = some index → 0 < count →
      index + count ≤ p.total → Ico index (index + count) ⊆ p.taken →
      Ico index (index + count) ⊆ p.held
  | _ => True

def units : ℕ := ∑ b ∈ p.blocks, b.units

def usage : HeapUsage where
  regions := p.leases.reduceOption.length
  frames := (p.leases.reduceOption.map Lease.count).sum
  capacity := 4032 * (p.leases.reduceOption.map Lease.count).sum
  used := 16 * p.units
  free := 4032 * (p.leases.reduceOption.map Lease.count).sum - 16 * p.units
  liveAllocations := UInt64.ofNat p.blocks.card

def frameUsage : FrameUsage where
  total := p.total
  allocated := p.taken.card
  free := p.total - p.taken.card

end Plan

/-! ## The plan of a world -/

/-- The lease of a region on frames of a pool. -/
def Region.lease (region : Region) (pool : FramePool) : Lease :=
  ⟨region.firstFrame pool, region.frames⟩

/-- A lease by address, as it looks from a base. -/
def Lease.ofAddress (base : PhysAddr) (lease : PhysAddr × ℕ) : Lease :=
  ⟨(lease.1.val.toNat - base.val.toNat) / 4096, lease.2⟩

/-- What an arena looks like from the start of its frame pool, with the blocks of
a ledger and the frames that direct callers hold. -/
def Arena.plan (arena : Arena) (ledger : Finset Block) (held : Finset ℕ) : Plan where
  total := arena.frames.totalFrames
  leases := arena.heap.leases.map (Option.map (Lease.ofAddress arena.frames.base))
  blocks := ledger.image (·.seenFrom arena.frames.base)
  held := held

theorem Arena.leases_plan (arena : Arena) (ledger : Finset Block) (held : Finset ℕ) :
    (arena.plan ledger held).leases =
      arena.heap.regions.map (Option.map fun region => region.lease arena.frames) := by
  rw [plan, Heap.leases, List.map_map]
  refine List.map_congr_left fun content _ => ?_
  rw [Function.comp_apply, Option.map_map]
  rfl

theorem RegionTable.total_eq_sum (f : Region → ℕ) (table : RegionTable) :
    total f table = (table.reduceOption.map f).sum := by
  induction table with
  | nil => rfl
  | cons content rest ih =>
      simp only [total] at ih ⊢
      cases content <;> simp [ih]

namespace World

variable {w : World}

/-- What a world looks like from the start of its frame pool. -/
def plan (w : World) : Plan := w.arena.plan w.ledger w.held

theorem forall_plan_blocks {P : Block → Prop} :
    (∀ b ∈ w.plan.blocks, P b) ↔ ∀ b ∈ w.ledger, P (b.seenFrom w.frames.base) :=
  forall_mem_image

theorem plan_leases (w : World) :
    w.plan.leases = w.regions.map (Option.map fun region => region.lease w.frames) :=
  w.arena.leases_plan w.ledger w.held

theorem getElem?_plan_leases (w : World) (slot : ℕ) :
    w.plan.leases[slot]? =
      w.regions[slot]?.map (Option.map fun region => region.lease w.frames) := by
  rw [plan_leases, List.getElem?_map]

theorem mem_plan_leases {lease : Lease} :
    lease ∈ w.plan.leases.reduceOption ↔
      ∃ slot region, Has w.regions slot region ∧ region.lease w.frames = lease := by
  rw [List.reduceOption_mem_iff, plan_leases, List.mem_map]
  constructor
  · rintro ⟨content, hcontent, heq⟩
    obtain ⟨region, rfl, hregion⟩ := Option.map_eq_some_iff.1 heq
    obtain ⟨slot, hslot⟩ := List.mem_iff_getElem?.1 hcontent
    exact ⟨slot, region, hslot, hregion⟩
  · rintro ⟨slot, region, hhas, rfl⟩
    exact ⟨some region, List.mem_of_getElem? hhas, rfl⟩

end World

end KernelMemory
