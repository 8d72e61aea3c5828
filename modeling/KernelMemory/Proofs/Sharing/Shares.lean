import Mathlib.Algebra.BigOperators.Group.Finset.Basic
import KernelMemory.Proofs.Heap.Recording
import KernelMemory.Proofs.Program.Turns

/-!
# Shares of a heap and its frames

What contexts that work at the same time own of one heap and of the pool under
it.  A context owns blocks and frames, and while it holds the heap lock it has
the heap in its custody: nobody else changes table, maps or counters, so it
knows them.  Shares of several contexts add up, and `Shared` says how their sum
describes the arena.

Frames can change hands at any moment at which the frame lock is free, also in
the middle of a heap operation.  So the invariant does not go through the heap
lock: it asks that the regions which the table lists lie on leased frames of
their own.  There is one exception.  The heap returns the frames of an empty
region before it takes the region off the table; a `Listing` says how far that
has got.  As long as the frame lock is held, the frames are still nobody's.
-/

namespace KernelMemory

open Finset Program RegionTable

/-! ## Tokens of a lock -/

namespace Locks

variable {κ : Type} [DecidableEq κ] {locks : Locks κ} {name other : κ}

/-- How many contexts hold a lock. -/
def holders (locks : Locks κ) (name : κ) : ℕ := if name ∈ locks.held then 1 else 0

theorem holders_le (locks : Locks κ) (name : κ) : locks.holders name ≤ 1 := by
  rw [holders]
  split_ifs <;> decide

theorem holders_eq_zero_iff : locks.holders name = 0 ↔ locks.IsFree name := by
  rw [holders, IsFree]
  split_ifs with h <;> simp [h]

theorem mem_of_holders_pos (h : 0 < locks.holders name) : name ∈ locks.held := by
  by_contra hfree
  rw [holders_eq_zero_iff.2 hfree] at h
  exact Nat.lt_irrefl 0 h

theorem holders_of_mem (h : name ∈ locks.held) : locks.holders name = 1 := if_pos h

@[simp] theorem holders_taking_self : (locks.taking name).holders name = 1 :=
  holders_of_mem List.mem_cons_self

theorem holders_taking_of_ne (h : name ≠ other) :
    (locks.taking other).holders name = locks.holders name := by
  simp [holders, taking, h]

@[simp] theorem holders_freeing_self : (locks.freeing name).holders name = 0 := by
  simp [holders, freeing]

theorem holders_freeing_of_ne (h : name ≠ other) :
    (locks.freeing other).holders name = locks.holders name := by
  simp [holders, freeing, h]

end Locks

/-! ## Shares -/

/-- What the region table lists besides the regions of the heap. -/
inductive Listing where
  /-- Nothing. -/
  | exact
  /-- One region whose frames are free, but out of reach: whoever returned them
  still holds the frame lock. -/
  | closing (slot : ℕ)
  /-- One region whose frames may be anybody's. -/
  | stale (slot : ℕ)

namespace Listing

/-- How often the frame lock is held on behalf of the table. -/
def gates : Listing → ℕ
  | closing _ => 1
  | exact | stale _ => 0

end Listing

/-- What the holder of the heap lock knows. -/
structure Custody where
  /-- An arena with the heap and the memory that there are.  Its frames are
  those of an earlier moment. -/
  arena : Arena
  /-- The blocks of all contexts. -/
  ledger : Finset Block
  listing : Listing

/-- The table lists the regions of the heap, and the heap has the blocks of all
contexts on record. -/
structure Custody.InOrder (c : Custody) : Prop where
  exact : c.listing = .exact
  recorded : c.arena.Recorded c.ledger

/-- What one context owns, or several together. -/
@[ext] structure Share where
  blocks : Multiset Block
  frames : Multiset ℕ
  /-- One for the heap lock. -/
  custody : Multiset Custody
  /-- One for the frame lock, unless it is held on behalf of the table. -/
  gates : ℕ

namespace Share

instance : Zero Share := ⟨⟨0, 0, 0, 0⟩⟩

instance : Add Share where
  add a b := ⟨a.blocks + b.blocks, a.frames + b.frames, a.custody + b.custody, a.gates + b.gates⟩

variable (a b : Share)

@[simp] theorem blocks_zero : (0 : Share).blocks = 0 := rfl
@[simp] theorem frames_zero : (0 : Share).frames = 0 := rfl
@[simp] theorem custody_zero : (0 : Share).custody = 0 := rfl
@[simp] theorem gates_zero : (0 : Share).gates = 0 := rfl
@[simp] theorem blocks_add : (a + b).blocks = a.blocks + b.blocks := rfl
@[simp] theorem frames_add : (a + b).frames = a.frames + b.frames := rfl
@[simp] theorem custody_add : (a + b).custody = a.custody + b.custody := rfl
@[simp] theorem gates_add : (a + b).gates = a.gates + b.gates := rfl

instance : AddCommMonoid Share where
  add_assoc a b c := by ext1 <;> exact add_assoc _ _ _
  zero_add a := by ext1 <;> exact zero_add _
  add_zero a := by ext1 <;> exact add_zero _
  add_comm a b := by ext1 <;> exact add_comm _ _
  nsmul := nsmulRec

/-- The blocks of a sum are the sum of the blocks, and likewise below. -/
def blocksHom : Share →+ Multiset Block := ⟨⟨blocks, rfl⟩, fun _ _ => rfl⟩

def framesHom : Share →+ Multiset ℕ := ⟨⟨frames, rfl⟩, fun _ _ => rfl⟩

def custodyHom : Share →+ Multiset Custody := ⟨⟨custody, rfl⟩, fun _ _ => rfl⟩

def gatesHom : Share →+ ℕ := ⟨⟨gates, rfl⟩, fun _ _ => rfl⟩

/-- No region is listed whose frames may be somebody else's. -/
def Calm (own : Share) : Prop := ∀ c ∈ own.custody, ∀ slot, c.listing ≠ .stale slot

/-- Every region that is listed is one of the heap. -/
def Exact (own : Share) : Prop := ∀ c ∈ own.custody, c.listing = .exact

variable {own : Share}

theorem Exact.calm (h : own.Exact) : own.Calm := by
  intro c hc slot
  rw [h c hc]
  exact Listing.noConfusion

theorem exact_of_custody (h : own.custody = 0) : own.Exact := by
  intro c hc
  rw [h] at hc
  exact absurd hc (Multiset.notMem_zero c)

theorem exact_singleton
    {B : Multiset Block} {F : Multiset ℕ} {g : ℕ} {c : Custody} (h : c.listing = .exact) :
    (⟨B, F, {c}, g⟩ : Share).Exact := by
  intro c' hc'
  rwa [Multiset.mem_singleton.1 hc']

end Share

/-! ## The invariant -/

namespace Arena

/-- The arena without the region that the table lists in excess. -/
def settled (arena : Arena) (listing : Listing) : Arena :=
  { arena with
    heap := match listing with
      | .exact => arena.heap
      | .closing slot | .stale slot => arena.heap.setSlot slot none }

/-- Some region of the table holds a block. -/
def Houses (arena : Arena) (b : Block) : Prop :=
  ∃ slot region, Has arena.heap.regions slot region ∧ region.Holds b

variable {arena arena' : Arena} {listing : Listing} {b : Block} {slot : ℕ} {region : Region}

theorem Houses.of_settled (h : (arena.settled listing).Houses b) : arena.Houses b := by
  obtain ⟨slot, region, hhas, hholds⟩ := h
  cases listing with
  | exact => exact ⟨slot, region, hhas, hholds⟩
  | closing other => exact ⟨slot, region, (has_set_none_iff.1 hhas).1, hholds⟩
  | stale other => exact ⟨slot, region, (has_set_none_iff.1 hhas).1, hholds⟩

theorem Houses.replace
    (region' : Region) (h : arena.Houses b) (hhas : Has arena.heap.regions slot region)
    (hbase : region'.base = region.base) (hsize : region'.frames = region.frames)
    (hregions : arena'.heap.regions = arena.heap.regions.set slot (some region')) :
    arena'.Houses b := by
  obtain ⟨j, r, hr, hholds⟩ := h
  obtain ⟨base, frames, used⟩ := region
  obtain ⟨base', frames', used'⟩ := region'
  cases hbase
  cases hsize
  by_cases hj : j = slot
  · subst hj
    cases hhas.unique hr
    refine ⟨j, ⟨base, frames, used'⟩, ?_, hholds⟩
    rw [hregions, has_set_self_iff hhas.lt]
  · refine ⟨j, r, ?_, hholds⟩
    rw [hregions, has_set_ne_iff (Ne.symm hj)]
    exact hr

end Arena

/-- The shares of all contexts together describe locks and arena. -/
structure Shared
    (origin : FramePool) (listing : Listing) (total : Share) (locks : Locks LockName)
    (arena : Arena) : Prop where
  base : arena.frames.base = origin.base
  totalMemory : arena.frames.totalMemory = origin.totalMemory
  custody : total.custody.card = locks.holders .heap
  gates : total.gates + listing.gates = locks.holders .frames
  blocks_nodup : total.blocks.Nodup
  frames_nodup : total.frames.Nodup
  units_pos : ∀ b ∈ total.blocks, 0 < b.units
  apart : ∀ b ∈ total.blocks, ∀ c ∈ total.blocks, b ≠ c → b.Apart c
  housed : ∀ b ∈ total.blocks, (arena.settled listing).Houses b
  framed : (arena.settled listing).Framed total.frames.toFinset
  closing : ∀ slot region, listing = .closing slot → Has arena.heap.regions slot region →
    region.OnFrames arena.frames ∧
      Disjoint arena.frames.leasedFrames (region.frameRun arena.frames)
  known : ∀ c ∈ total.custody, arena.heap = c.arena.heap ∧ arena.memory = c.arena.memory ∧
    total.blocks.toFinset = c.ledger ∧ listing = c.listing
  idle : total.custody = 0 → listing = .exact ∧ arena.Recorded total.blocks.toFinset

/-- How contexts share a heap and its frames.  A context takes the heap lock
before the frame lock and neither twice, and nobody else can see a stale
listing. -/
def sharing (origin : FramePool) : Discipline LockName Arena Share Share where
  inv own env locks arena := ∃ listing, Shared origin listing (own + env) locks arena
  mayWait _ := False
  mayTake name own := own.Exact ∧ own.gates = 0 ∧ (name = .heap → own.custody = 0)
  mayHold _ own := own.Calm
  mayFree _ own := own.Calm

namespace Shared

variable {origin : FramePool} {listing : Listing} {total own env : Share}
variable {locks : Locks LockName} {arena : Arena}

theorem frameStart_eq (h : Shared origin listing total locks arena) (index : ℕ) :
    arena.frames.frameStart index = origin.frameStart index := by
  rw [FramePool.frameStart, FramePool.frameStart, h.base]

theorem frameIndex?_eq (h : Shared origin listing total locks arena) (pa : PhysAddr) :
    arena.frames.frameIndex? pa = origin.frameIndex? pa := by
  rw [FramePool.frameIndex?, FramePool.frameIndex?, FramePool.totalFrames, FramePool.totalFrames,
    h.base, h.totalMemory]

theorem firstFrame_eq (h : Shared origin listing total locks arena) (region : Region) :
    region.firstFrame arena.frames = region.firstFrame origin := by
  rw [Region.firstFrame, Region.firstFrame, h.base]

/-- While a context holds the frame lock for itself, the table does not. -/
theorem not_closing
    (h : Shared origin listing total locks arena) (hpos : 0 < total.gates) (slot : ℕ) :
    listing ≠ .closing slot := by
  rintro rfl
  have hle := locks.holders_le .frames
  have hgates := h.gates
  rw [Listing.gates] at hgates
  omega

variable {B : Multiset Block} {F : Multiset ℕ} {c : Custody} {g : ℕ}

theorem known_self (h : Shared origin listing (⟨B, F, {c}, g⟩ + env) locks arena) :
    arena.heap = c.arena.heap ∧ arena.memory = c.arena.memory ∧
      (B + env.blocks).toFinset = c.ledger ∧ listing = c.listing :=
  h.known c (Multiset.mem_add.2 (Or.inl (Multiset.mem_singleton_self c)))

theorem env_custody (h : Shared origin listing (⟨B, F, {c}, g⟩ + env) locks arena) :
    env.custody = 0 := by
  have hcard := h.custody
  have hle := locks.holders_le .heap
  rw [Share.custody_add, Multiset.card_add, Multiset.card_singleton] at hcard
  rw [← Multiset.card_eq_zero]
  omega

/-- The holder of the heap lock changes the heap, and what it owns of the
frames with it. -/
theorem alter
    {F' : Multiset ℕ} {known : Arena} {listing' : Listing} {g' : ℕ} {locks' : Locks LockName}
    (arena' : Arena) (h : Shared origin listing (⟨B, F, {c}, g⟩ + env) locks arena)
    (hknown : arena'.heap = known.heap ∧ arena'.memory = known.memory)
    (hbase : arena'.frames.base = arena.frames.base)
    (htotal : arena'.frames.totalMemory = arena.frames.totalMemory)
    (hheap : locks'.holders .heap = locks.holders .heap)
    (hgates : g' + env.gates + listing'.gates = locks'.holders .frames)
    (hnodup : (F' + env.frames).Nodup)
    (hhoused : ∀ b ∈ c.ledger, (arena'.settled listing').Houses b)
    (hframed : (arena'.settled listing').Framed (F' + env.frames).toFinset)
    (hclosing : ∀ slot region, listing' = .closing slot → Has arena'.heap.regions slot region →
      region.OnFrames arena'.frames ∧
        Disjoint arena'.frames.leasedFrames (region.frameRun arena'.frames)) :
    Shared origin listing' (⟨B, F', {⟨known, c.ledger, listing'⟩}, g'⟩ + env) locks' arena' where
  base := hbase.trans h.base
  totalMemory := htotal.trans h.totalMemory
  custody := by
    rw [hheap, ← h.custody, Share.custody_add, Share.custody_add, Multiset.card_add,
      Multiset.card_add]
    rfl
  gates := hgates
  blocks_nodup := h.blocks_nodup
  frames_nodup := hnodup
  units_pos := h.units_pos
  apart := h.apart
  housed b hb := by
    refine hhoused b ?_
    rw [← h.known_self.2.2.1, Multiset.mem_toFinset]
    exact hb
  framed := hframed
  closing := hclosing
  known c' hc' := by
    rw [Share.custody_add, h.env_custody, add_zero, Multiset.mem_singleton] at hc'
    subst hc'
    exact ⟨hknown.1, hknown.2, h.known_self.2.2.1, rfl⟩
  idle hnone := by
    rw [Share.custody_add, h.env_custody, add_zero] at hnone
    exact absurd hnone (Multiset.singleton_ne_zero _)

end Shared

/-! ## Locks -/

section Rules

variable {origin : FramePool} {B B' : Multiset Block} {F : Multiset ℕ} {C : Multiset Custody}
variable {c : Custody} {slot : ℕ}

theorem takes_frames (hexact : (⟨B, F, C, 0⟩ : Share).Exact) :
    (sharing origin).Takes ⟨B, F, C, 0⟩ .frames (· = ⟨B, F, C, 1⟩) := by
  refine ⟨⟨hexact, rfl, fun hname => by cases hname⟩, ?_⟩
  rintro env locks arena ⟨listing, h⟩ hfree
  have hzero : 0 + env.gates + listing.gates = 0 :=
    h.gates.trans (Locks.holders_eq_zero_iff.2 hfree)
  refine ⟨⟨B, F, C, 1⟩, ⟨listing, { h with custody := ?_, gates := ?_ }⟩,
    hexact.calm, rfl⟩
  · rw [Locks.holders_taking_of_ne (by decide)]
    exact h.custody
  · rw [Locks.holders_taking_self]
    change 1 + env.gates + listing.gates = 1
    omega

theorem frees_frames (hcalm : (⟨B, F, C, 1⟩ : Share).Calm) :
    (sharing origin).Frees ⟨B, F, C, 1⟩ .frames (· = ⟨B, F, C, 0⟩) := by
  refine ⟨hcalm, ?_⟩
  rintro env locks arena ⟨listing, h⟩
  have hone : 1 + env.gates + listing.gates = locks.holders .frames := h.gates
  refine ⟨Locks.mem_of_holders_pos (by omega), ⟨B, F, C, 0⟩,
    ⟨listing, { h with custody := ?_, gates := ?_ }⟩, rfl⟩
  · rw [Locks.holders_freeing_of_ne (by decide)]
    exact h.custody
  · have hle := locks.holders_le .frames
    rw [Locks.holders_freeing_self]
    change 0 + env.gates + listing.gates = 0
    omega

/-- When the frame lock is freed, the frames of a region that closes are within
everybody's reach. -/
theorem frees_closing :
    (sharing origin).Frees ⟨B, F, {{ c with listing := .closing slot }}, 0⟩ .frames
      (· = ⟨B, F, {{ c with listing := .stale slot }}, 0⟩) := by
  refine ⟨?_, ?_⟩
  · intro c' hc' slot'
    rw [Multiset.mem_singleton.1 hc']
    exact Listing.noConfusion
  rintro env locks arena ⟨listing, h⟩
  obtain ⟨hheap, hmemory, hledger, rfl⟩ := h.known_self
  have hone : 0 + env.gates + 1 = locks.holders .frames := h.gates
  refine ⟨Locks.mem_of_holders_pos (by omega), _,
    ⟨.stale slot, h.alter arena ⟨hheap, hmemory⟩ rfl rfl ?_ ?_ h.frames_nodup ?_ h.framed ?_⟩, rfl⟩
  · exact Locks.holders_freeing_of_ne (by decide)
  · have hle := locks.holders_le .frames
    rw [Locks.holders_freeing_self]
    change 0 + env.gates + 0 = 0
    omega
  · intro b hb
    rw [← hledger, Multiset.mem_toFinset] at hb
    exact h.housed b hb
  · exact fun _ _ hlisting => by cases hlisting

/-- Whoever takes the heap lock finds the heap in order. -/
theorem takes_heap :
    (sharing origin).Takes ⟨B, F, 0, 0⟩ .heap fun own' =>
      ∃ c, own' = ⟨B, F, {c}, 0⟩ ∧ c.InOrder ∧ ∀ b ∈ B, b ∈ c.ledger := by
  have hexact : (⟨B, F, 0, 0⟩ : Share).Exact := Share.exact_of_custody rfl
  refine ⟨⟨hexact, rfl, fun _ => rfl⟩, ?_⟩
  rintro env locks arena ⟨listing, h⟩ hfree
  have hcard : ((0 : Multiset Custody) + env.custody).card = 0 :=
    h.custody.trans (Locks.holders_eq_zero_iff.2 hfree)
  have hnone : (0 : Multiset Custody) + env.custody = 0 := Multiset.card_eq_zero.1 hcard
  obtain ⟨rfl, hrecorded⟩ := h.idle hnone
  rw [zero_add] at hnone
  let c : Custody := ⟨arena, (B + env.blocks).toFinset, .exact⟩
  refine ⟨⟨B, F, {c}, 0⟩, ⟨.exact, { h with custody := ?_, gates := ?_, known := ?_, idle := ?_ }⟩,
    Share.Exact.calm (Share.exact_singleton rfl), c, rfl,
    ⟨rfl, hrecorded⟩, fun b hb => Multiset.mem_toFinset.2 (Multiset.mem_add.2 (Or.inl hb))⟩
  · rw [Locks.holders_taking_self]
    change (({c} : Multiset Custody) + env.custody).card = 1
    rw [hnone]
    rfl
  · rw [Locks.holders_taking_of_ne (by decide)]
    exact h.gates
  · intro c' hc'
    rw [Share.custody_add, hnone, add_zero, Multiset.mem_singleton] at hc'
    subst hc'
    exact ⟨rfl, rfl, rfl, rfl⟩
  · intro hsome
    rw [Share.custody_add, hnone, add_zero] at hsome
    exact absurd hsome (Multiset.singleton_ne_zero _)

/-- Whoever frees the heap lock leaves the heap in order, with the blocks that
it has made its own or given up. -/
theorem frees_heap
    {ledger : Finset Block} (hlisting : c.listing = .exact) (hrecorded : c.arena.Recorded ledger)
    (hblocks : ∀ rest : Multiset Block, (B + rest).Nodup → (B + rest).toFinset = c.ledger →
      (B' + rest).Nodup ∧ (B' + rest).toFinset = ledger) :
    (sharing origin).Frees ⟨B, F, {c}, 0⟩ .heap (· = ⟨B', F, 0, 0⟩) := by
  refine ⟨Share.Exact.calm (Share.exact_singleton hlisting), ?_⟩
  rintro env locks arena ⟨listing, h⟩
  obtain ⟨hheap, hmemory, hledger, hexact⟩ := h.known_self
  have hnone := h.env_custody
  obtain ⟨hnodup, hledger'⟩ := hblocks env.blocks h.blocks_nodup hledger
  rw [hlisting] at hexact
  subst hexact
  have hrecorded' : arena.Recorded ledger := hrecorded.of_frames hheap hmemory
  have hmem {b : Block} (hb : b ∈ B' + env.blocks) : b ∈ ledger := by
    rw [← hledger', Multiset.mem_toFinset]
    exact hb
  have hone := h.custody
  rw [Share.custody_add, hnone, add_zero, Multiset.card_singleton] at hone
  refine ⟨Locks.mem_of_holders_pos (by omega), ⟨B', F, 0, 0⟩, ⟨.exact, { h with
    custody := ?_
    gates := ?_
    blocks_nodup := hnodup
    units_pos := fun b hb => hrecorded'.units_pos b (hmem hb)
    apart := fun b hb b' hb' => hrecorded'.apart b (hmem hb) b' (hmem hb')
    housed := fun b hb => hrecorded'.held b (hmem hb)
    known := ?_
    idle := fun _ => ⟨rfl, hledger'.symm ▸ hrecorded'⟩ }⟩, rfl⟩
  · rw [Locks.holders_freeing_self, Share.custody_add, hnone]
    rfl
  · rw [Locks.holders_freeing_of_ne (by decide)]
    exact h.gates
  · intro c' hc'
    rw [Share.custody_add, hnone] at hc'
    exact absurd hc' (Multiset.notMem_zero c')

/-! ## Sections -/

theorem keeps_locked
    {α : Type} {body : Section FramePool α} {post : Result α → Share → Prop}
    (hexact : (⟨B, F, C, 0⟩ : Share).Exact)
    (h : ∀ env listing locks arena,
      Shared origin listing (⟨B, F, C, 1⟩ + env) locks arena → ∃ result frames' own',
        body.perform arena.frames = (result, frames') ∧
        (sharing origin).inv own' env locks { arena with frames := frames' } ∧
        (sharing origin).Frees own' .frames (post result)) :
    Keeps (sharing origin) ⟨B, F, C, 0⟩ (within Arena.framesPart (FramePool.locked body)) post := by
  rw [FramePool.locked, within_withLock]
  refine Keeps.withLock ((takes_frames hexact).mono ?_)
  rintro own' rfl
  rintro env locks arena ⟨listing, hshared⟩
  obtain ⟨result, frames', own', hperform, hinv, hfrees⟩ := h env listing locks arena hshared
  refine Or.inr ⟨result, { arena with frames := frames' }, own', ?_, hinv, hfrees⟩
  simp only [Arena.framesPart, Option.bind_some, Option.map_some, hperform]

theorem keeps_inspectFrames
    {α : Type} {f : FramePool → α} {own : Share} {post : Result α → Share → Prop}
    (h : ∀ env listing locks arena, Shared origin listing (own + env) locks arena →
      post (.ok (f arena.frames)) own) :
    Keeps (sharing origin) own (within Arena.framesPart (inspect f)) post := by
  rintro env locks arena ⟨listing, hshared⟩
  exact Or.inr ⟨f arena.frames, arena, own, rfl, ⟨listing, hshared⟩,
    h env listing locks arena hshared⟩

theorem keeps_inspectHeap
    {α : Type} {f : Heap → α} {post : Result α → Share → Prop}
    (h : post (.ok (f c.arena.heap)) ⟨B, F, {c}, 0⟩) :
    Keeps (sharing origin) ⟨B, F, {c}, 0⟩ (inspect fun arena => f arena.heap) post := by
  refine keeps_inspect ?_
  rintro env locks arena ⟨listing, hshared⟩
  rw [hshared.known_self.1]
  exact h

end Rules

end KernelMemory
