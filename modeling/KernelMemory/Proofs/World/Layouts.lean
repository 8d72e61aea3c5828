import KernelMemory.Proofs.World.Availability
import KernelMemory.Proofs.World.Faultless
import KernelMemory.Proofs.World.Isolation
import KernelMemory.Proofs.World.Pointers
import KernelMemory.Proofs.World.Teardown

/-!
# Blocks by layout

What collections rely on when they allocate through a heap.  A request by layout
is a call, and so are the first and the last part of moving a block; in between
the client stores to a block that it holds by then.  Each of these is a step
under the discipline and keeps every byte that was somebody's before, so
contents survive whatever the calls do to the maps.  The main statement
`Reachable.layout_blocks_keep_contents` says so for blocks as they come, zeroed
and moved.
-/

namespace KernelMemory

open Arena Finset Program Relation

namespace Layout

/-- How many bytes a layout asks for; an empty one gets one. -/
def bytes (layout : Layout) : ℕ := (max layout.size 1).toNat

/-- The block behind a pointer that was given out for a layout. -/
def blockAt (layout : Layout) (map : DirectMap) (pointer : VirtAddr) : Block :=
  ⟨map.toPhysical pointer, ceilDiv layout.bytes 16⟩

variable (layout : Layout)

theorem size_le_bytes : layout.size.toNat ≤ layout.bytes := by
  have hle : layout.size ≤ max layout.size 1 := by
    simp only [max]
    split
    · assumption
    · exact UInt64.le_refl _
  exact UInt64.le_iff_toNat_le.1 hle

theorem bytes_le_units : layout.bytes ≤ 16 * ceilDiv layout.bytes 16 := by
  rw [Nat.mul_comm]
  exact le_ceilDiv_mul layout.bytes (by decide)

theorem size_le_units : layout.size.toNat ≤ 16 * ceilDiv layout.bytes 16 :=
  layout.size_le_bytes.trans layout.bytes_le_units

end Layout

/-- A map by a multiple of a frame keeps alignments up to a frame. -/
theorem DirectMap.dvd_toVirtual
    {map : DirectMap} (hmap : 4096 ∣ map.offset.toNat) {align : ℕ} (halign : align ∣ 4096)
    {pa : PhysAddr} (hpa : align ∣ pa.val.toNat) : align ∣ (map.toVirtual pa).val.toNat := by
  have hspace : align ∣ 2 ^ 64 := halign.trans (by decide)
  rw [toVirtual, UInt64.toNat_add]
  exact (Nat.dvd_mod_iff hspace).2 (Nat.dvd_add hpa (halign.trans hmap))

/-! ## Requests of collections -/

def Machine.withMemory (m : Machine LockName Arena) (memory : Memory) : Machine LockName Arena :=
  { m with state := { m.state with memory } }

namespace Arena

variable {map : DirectMap} {layout : Layout} {pointer target : VirtAddr} {newSize : UInt64}
variable {m m₁ m₂ : Machine LockName Arena}

theorem run_fill (map : DirectMap) (pointer : VirtAddr) (n : ℕ) (byte : UInt8)
    (m : Machine LockName Arena) :
    ((blockAllocator map).fill pointer n byte).run m =
      some (.ok (), m.withMemory (m.state.memory.fill (map.toPhysical pointer) n byte)) := rfl

theorem run_copy (map : DirectMap) (source target : VirtAddr) (n : ℕ)
    (m : Machine LockName Arena) :
    ((blockAllocator map).copy source target n).run m = some (.ok (), m.withMemory
      (m.state.memory.copy (map.toPhysical source) (map.toPhysical target) n)) := rfl

theorem run_allocZeroed_none (h : (allocLayout layout).run m = some (.ok none, m₁)) :
    ((blockAllocator map).allocZeroed layout).run m = some (.ok none, m₁) := by
  change ((allocLayout layout).bind _).run m = _
  rw [run_bind, h]
  rfl

theorem run_allocZeroed_some
    (h : (allocLayout layout).run m = some (.ok (some pointer), m₁)) :
    ((blockAllocator map).allocZeroed layout).run m = some (.ok (some pointer), m₁.withMemory
      (m₁.state.memory.fill (map.toPhysical pointer) layout.size.toNat 0)) := by
  change ((allocLayout layout).bind _).run m = _
  rw [run_bind, h]
  change (((blockAllocator map).fill pointer _ 0).bind _).run m₁ = _
  rw [run_bind, run_fill]
  rfl

theorem run_realloc_none
    (h : (allocLayout { layout with size := newSize }).run m = some (.ok none, m₁)) :
    ((blockAllocator map).realloc pointer layout newSize).run m = some (.ok none, m₁) := by
  change ((allocLayout { layout with size := newSize }).bind _).run m = _
  rw [run_bind, h]
  rfl

theorem run_realloc_some
    (h : (allocLayout { layout with size := newSize }).run m = some (.ok (some target), m₁))
    (hdealloc : (dealloc pointer).run (m₁.withMemory (m₁.state.memory.copy
      (map.toPhysical pointer) (map.toPhysical target) (min layout.size newSize).toNat)) =
        some (.ok (), m₂)) :
    ((blockAllocator map).realloc pointer layout newSize).run m =
      some (.ok (some target), m₂) := by
  change ((allocLayout { layout with size := newSize }).bind _).run m = _
  rw [run_bind, h]
  change (((blockAllocator map).copy pointer target _).bind _).run m₁ = _
  rw [run_bind, run_copy]
  change ((dealloc pointer).bind _).run _ = _
  rw [run_bind, hdealloc]
  rfl

end Arena

namespace World

variable {w w' : World} {layout : Layout} {pointer : VirtAddr} {qa : PhysAddr}
variable {machine : Machine LockName Arena} {result : Result (Option VirtAddr)}

/-! ## Bytes of a block -/

/-- Live blocks do not wrap. -/
theorem Tracked.stop_lt
    (ht : w.Tracked) (hw : w.Orderly) {b : Block} (hb : b ∈ w.ledger) :
    b.stop < UInt64.size :=
  Nat.lt_of_le_of_lt (ht.bounds_of_mem hw hb).2.2 (hw.framed.sound.frameStart_lt (Nat.le_refl _))

theorem Tracked.units_lt
    (ht : w.Tracked) (hw : w.Orderly) {b : Block} (hb : b ∈ w.ledger) :
    16 * b.units < UInt64.size := by
  have hstop := ht.stop_lt hw hb
  rw [Block.stop] at hstop
  omega

theorem Tracked.distance_lt_iff
    (ht : w.Tracked) (hw : w.Orderly) {b : Block} (hb : b ∈ w.ledger) :
    Memory.distance b.address qa < 16 * b.units ↔ b.Covers qa.val.toNat :=
  Memory.distance_lt_iff (Nat.le_of_lt (ht.stop_lt hw hb))

theorem Tracked.covers_offset
    (ht : w.Tracked) (hw : w.Orderly) {b : Block} (hb : b ∈ w.ledger) {k : ℕ}
    (hk : k < 16 * b.units) : b.Covers (Memory.offset b.address k).val.toNat := by
  rw [← ht.distance_lt_iff hw hb,
    Memory.distance_offset b.address (hk.trans (ht.units_lt hw hb))]
  exact hk

/-! ## Stores to a block -/

def withMemory (w : World) (memory : Memory) : World :=
  { w with machine := w.machine.withMemory memory }

/-- Bytes that are stored to live blocks one after another. -/
theorem steps_fold_set
    {pa : PhysAddr} {n : ℕ} (hblock : ∀ k < n, w.InBlock (Memory.offset pa k))
    (value : (k : ℕ) → k < n → UInt8) :
    ReflTransGen (Step Rules.tidy) w (w.withMemory
      (Nat.fold n (fun k hk m => m.set (Memory.offset pa k) (value k hk)) w.memory)) := by
  induction n with
  | zero => exact .refl
  | succ n ih =>
      rw [Nat.fold_succ]
      exact (ih (fun k hk => hblock k (by omega)) _).tail
        (.store (Or.inl (hblock n (Nat.lt_succ_self n))))

theorem Reachable.steps
    {rules : Rules} (h : Reachable rules w) (hsteps : ReflTransGen (Step rules) w w') :
    Reachable rules w' := by
  induction hsteps with
  | refl => exact h
  | tail _ hstep ih => exact ih.step hstep

/-! ## Who has a byte -/

/-- The byte of a live block is nobody else's. -/
theorem Tracked.sole_owner
    (ht : w.Tracked) (hw : w.Orderly) {c : Block} (hc : c ∈ w.ledger)
    (hqa : c.Covers qa.val.toNat) :
    (∀ b ∈ w.ledger, b.Covers qa.val.toNat → b = c) ∧
    (∀ b ∈ w.orphans, ¬ b.Covers qa.val.toNat) ∧ ¬ w.InFrames (w.held ∪ w.abandoned) qa := by
  refine ⟨fun b hb hcovers => ht.recorded.eq_of_covers hb hc hcovers hqa,
    fun b hb hcovers => (ht.unclaimed_of_orphan hw hb hcovers).blocks c hc hqa, fun hframe => ?_⟩
  obtain ⟨slot, region, hhas, hholds⟩ := ht.recorded.held c hc
  exact hw.not_inMaps_of_inFrames (subset_refl _) hhas hframe
    (Region.contains_of_covers hholds hqa)

/-- What was somebody's stays so through an allocation, and is not in a block
that has come by it. -/
theorem Reachable.foreign_called
    (h : Reachable Rules.tidy w)
    (hrun : (allocLayout layout).run w.machine = some (result, machine))
    (hqa : w.Foreign qa) :
    (w.called (.allocLayout layout) result machine).Foreign qa ∧
      ∀ c ∈ (w.called (.allocLayout layout) result machine).ledger, c ∉ w.ledger →
        ¬ c.Covers qa.val.toNat := by
  have hpermits : w.Permits (.allocLayout layout) := trivial
  have h' : Reachable Rules.tidy (w.called (.allocLayout layout) result machine) :=
    h.step (.call hpermits hrun)
  have hfreed : (Call.allocLayout layout).freed? w.heap.map = none := rfl
  have hledger := ledger_subset_called hfreed result machine
  rcases hqa with ⟨b, hb, hcovers⟩ | hframe
  · refine ⟨Or.inl ⟨b, union_subset_union_left hledger hb, hcovers⟩, fun c hc hnew hqa => ?_⟩
    obtain ⟨hsole, horphans, -⟩ := h'.tracked.sole_owner h'.orderly hc hqa
    rcases mem_union.1 hb with hb | hb
    · exact hnew (hsole b (hledger hb) hcovers ▸ hb)
    · exact horphans b hb hcovers
  · have hframe' := (h.orderly.inFrames_called_iff hpermits hrun).2 hframe
    refine ⟨Or.inr hframe', fun c hc _ hqa => ?_⟩
    exact (h'.tracked.sole_owner h'.orderly hc hqa).2.2 hframe'

/-! ## Blocks that were given out -/

/-- What a pointer that is given out for a layout is good for. -/
structure Suits (w : World) (layout : Layout) (pointer : VirtAddr) : Prop where
  nonNull : pointer.isNull = false
  aligned : layout.align.toNat ∣ pointer.val.toNat
  inside : pointer.val.toNat + layout.bytes ≤ UInt64.size
  /-- The bytes were nobody's. -/
  vacant : ∀ i < layout.bytes,
    ¬ w.Foreign (Memory.offset (w.heap.map.toPhysical pointer) i)

/-- A world in which a block for a layout is live behind a pointer, and
everything that was somebody's before is as it was. -/
structure Granted (w : World) (layout : Layout) (pointer : VirtAddr) (w' : World) : Prop where
  steps : ReflTransGen (Step Rules.tidy) w w'
  map : w'.heap.map = w.heap.map
  suits : w.Suits layout pointer
  new : layout.blockAt w.heap.map pointer ∉ w.ledger
  ledger : w'.ledger = insert (layout.blockAt w.heap.map pointer) w.ledger
  foreign : ∀ qa, w.Foreign qa → w'.Foreign qa
  apart : ∀ qa, w.Foreign qa → ¬ (layout.blockAt w.heap.map pointer).Covers qa.val.toNat
  kept : ∀ qa, w.Foreign qa → w'.memory.get qa = w.memory.get qa

/-- When a request for a layout is turned down. -/
def Denies (w : World) (layout : Layout) : Prop :=
  4096 < layout.align.toNat ∨ ∃ error machine,
    (allocAligned (max layout.size 1) layout.align).run w.machine =
      some (.refuse error, machine)

theorem Reachable.granted_of_run
    (h : Reachable Rules.tidy w) (hmap : 4096 ∣ w.heap.map.offset.toNat) {pa : PhysAddr}
    (halloc : (allocAligned (max layout.size 1) layout.align).run w.machine =
      some (.ok pa, machine))
    (hnull : (w.heap.map.toVirtual pa).isNull = false)
    (hrun : (allocLayout layout).run w.machine =
      some (.ok (some (w.heap.map.toVirtual pa)), machine)) :
    w.Granted layout (w.heap.map.toVirtual pa)
      (w.called (.allocLayout layout) (.ok (some (w.heap.map.toVirtual pa))) machine) := by
  have hw := h.orderly
  have hpermits : w.Permits (.allocLayout layout) := trivial
  have hstep : w.Step Rules.quiet
      (w.called (.allocLayout layout) (.ok (some (w.heap.map.toVirtual pa))) machine) :=
    .call hpermits hrun
  have h' := h.step hstep.tidy_of_quiet
  obtain ⟨-, hchange⟩ := hw.called_change hpermits hrun
  have hmap' : machine.state.heap.map = w.heap.map := hchange.map_eq
  obtain ⟨hsize, hpow, hle, hallocates⟩ := hw.allocates_of_run halloc
  have hreq := request_of_layout hsize hpow hle
  -- the block behind the pointer is the one that the allocation has placed
  have hblock : layout.blockAt w.heap.map (w.heap.map.toVirtual pa) =
      ⟨pa, ceilDiv layout.bytes 16⟩ := by
    rw [Layout.blockAt, DirectMap.toPhysical_toVirtual]
  obtain ⟨hnew, -⟩ := hallocates.recorded hreq hw.framed h.tracked.recorded
  have hledger : w.ledgerAfter (.allocLayout layout) (.ok (some (w.heap.map.toVirtual pa))) =
      insert ⟨pa, ceilDiv layout.bytes 16⟩ w.ledger := by
    rw [ledgerAfter_of_obtained rfl, ← hblock]
    rfl
  have hmem : ⟨pa, ceilDiv layout.bytes 16⟩ ∈
      w.ledgerAfter (.allocLayout layout) (.ok (some (w.heap.map.toVirtual pa))) := by
    rw [hledger]
    exact mem_insert_self _ _
  have hroom := layout.bytes_le_units
  have hsuits : w.Suits layout (w.heap.map.toVirtual pa) := {
    nonNull := hnull
    aligned := DirectMap.dvd_toVirtual hmap (align_dvd hpow hle).1
      ((h.tracked.firstFit_of_allocates hw hreq hallocates).dvd hw hpow hle)
    inside := by
      obtain ⟨-, hstop⟩ := h'.tracked.virtualStart_eq h'.orderly hmem
      change Block.virtualStop machine.state.heap.map _ ≤ _ at hstop
      rw [hmap'] at hstop
      exact (Nat.add_le_add_left hroom _).trans hstop
    vacant := by
      intro i hi hqa
      rw [DirectMap.toPhysical_toVirtual] at hqa
      exact (h.foreign_called hrun hqa).2 _ hmem hnew
        (h'.tracked.covers_offset h'.orderly hmem (Nat.lt_of_lt_of_le hi hroom)) }
  exact {
    steps := .single hstep.tidy_of_quiet
    map := hmap'
    suits := hsuits
    new := hblock ▸ hnew
    ledger := hblock ▸ hledger
    foreign := fun qa hqa => (h.foreign_called hrun hqa).1
    apart := fun qa hqa => hblock ▸ (h.foreign_called hrun hqa).2 _ hmem hnew
    kept := fun qa hqa => h.get_eq_of_foreign hstep hqa }

theorem Reachable.not_denies
    (h : Reachable Rules.tidy w)
    (hserves : Serves w.machine (max layout.size 1) layout.align) : ¬ w.Denies layout := by
  obtain ⟨pa, machine, hrun⟩ := hserves
  rintro (hlarge | ⟨error, machine', hrefused⟩)
  · have hle := (h.orderly.allocates_of_run hrun).2.2.1
    omega
  · rw [hrun] at hrefused
    cases hrefused

/-- A request for a layout is denied and changes nothing, or a block is given
out for it. -/
theorem Reachable.allocLayout_cases
    (h : Reachable Rules.tidy w) (hmap : 4096 ∣ w.heap.map.offset.toNat) (layout : Layout) :
    (¬ w.Denies layout ∧ ∃ pointer machine,
      (allocLayout layout).run w.machine = some (.ok (some pointer), machine) ∧
      w.Granted layout pointer (w.called (.allocLayout layout) (.ok (some pointer)) machine)) ∨
    (w.Denies layout ∧ ∃ machine,
      (allocLayout layout).run w.machine = some (.ok none, machine) ∧
      machine.state = w.arena) := by
  rw [allocLayout_eq]
  rcases h.orderly.asPointer_cases (max layout.size 1) layout.align with
    ⟨pa, machine, halloc, hnull, hrun⟩ | ⟨error, machine, halloc, hrun, -, hstate⟩
  · exact Or.inl ⟨h.not_denies ⟨pa, machine, halloc⟩, _, machine, hrun,
      h.granted_of_run hmap halloc hnull hrun⟩
  · exact Or.inr ⟨Or.inr ⟨error, machine, halloc⟩, machine, hrun, hstate⟩

/-! ## Stores to a block that was given out -/

theorem Granted.mem (h : w.Granted layout pointer w') :
    layout.blockAt w.heap.map pointer ∈ w'.ledger := by
  rw [h.ledger]
  exact mem_insert_self _ _

/-- The client may store to the whole block. -/
theorem Granted.fold_set
    (h : w.Granted layout pointer w') (h' : Reachable Rules.tidy w') {n : ℕ}
    (hn : n ≤ 16 * ceilDiv layout.bytes 16) (value : (k : ℕ) → k < n → UInt8) :
    w.Granted layout pointer (w'.withMemory (Nat.fold n
      (fun k hk m => m.set (Memory.offset (w.heap.map.toPhysical pointer) k) (value k hk))
      w'.memory)) := by
  have hcovers (k : ℕ) (hk : k < n) :=
    h'.tracked.covers_offset h'.orderly h.mem (Nat.lt_of_lt_of_le hk hn)
  refine { h with
    steps := h.steps.trans (steps_fold_set
      (fun k hk => ⟨_, mem_union_left _ h.mem, hcovers k hk⟩) value)
    kept := fun qa hqa => Eq.trans ?_ (h.kept qa hqa) }
  have hsize : n ≤ UInt64.size :=
    hn.trans (Nat.le_of_lt (h'.tracked.units_lt h'.orderly h.mem))
  change (Nat.fold n _ w'.memory).get qa = _
  rw [Memory.get_fold_set w'.memory _ qa n hsize, dif_neg]
  intro hwindow
  exact h.apart qa hqa
    ((h'.tracked.distance_lt_iff h'.orderly h.mem).1 (Nat.lt_of_lt_of_le hwindow hn))

/-! ## Taking back a block -/

/-- Taking back a live block takes it off the ledger and keeps every byte that
is somebody's.  No block starts at its address afterwards. -/
theorem Reachable.exists_dealloc
    (h : Reachable Rules.tidy w) (hnull : pointer.isNull = false) {b : Block}
    (hb : b ∈ w.ledger) (haddress : b.address = w.heap.map.toPhysical pointer) :
    ∃ machine, (dealloc pointer).run w.machine = some (.ok (), machine) ∧
      w.Step Rules.tidy (w.called (.dealloc pointer) (.ok ()) machine) ∧
      w.ledgerAfter (.dealloc pointer) (.ok ()) = w.ledger.erase b ∧
      (∀ c ∈ w.ledgerAfter (.dealloc pointer) (.ok ()), c.address ≠ b.address) ∧
      ∀ qa, w.Foreign qa →
        (w.called (.dealloc pointer) (.ok ()) machine).memory.get qa = w.memory.get qa := by
  have hpermits : w.Permits (.dealloc pointer) := trivial
  rcases h.tracked.dealloc_cases h.orderly pointer with
    ⟨-, arena', hyields⟩ | ⟨⟨-, hnone⟩, -⟩
  · obtain ⟨machine, hrun, -⟩ := hyields.exists_run
    have hstep : w.Step Rules.quiet (w.called (.dealloc pointer) (.ok ()) machine) :=
      .call hpermits hrun
    have hfreed : (Call.dealloc pointer).freed? w.heap.map = some b.address := by
      rw [haddress, Call.freed?, hnull]
      rfl
    have hledger : w.ledgerAfter (.dealloc pointer) (.ok ()) =
        w.ledger.filter (·.address ≠ b.address) := ledgerAfter_of_freed rfl hfreed
    refine ⟨machine, hrun, hstep.tidy_of_quiet, ?_, ?_, fun qa hqa => h.get_eq_of_foreign hstep hqa⟩
    · rw [hledger, h.tracked.recorded.filter_address_ne hb]
    · rw [hledger]
      exact fun c hc => (mem_filter.1 hc).2
  · exact absurd ⟨b, hb, haddress⟩ hnone

/-! ## Contents -/

/-- What every request for a layout answers: no pointer if it is denied, which
changes nothing, and else one that suits the layout.  What was somebody's keeps
its bytes. -/
structure Served (w : World) (layout : Layout) (answer : Option VirtAddr) (w' : World) :
    Prop where
  steps : ReflTransGen (Step Rules.tidy) w w'
  none_iff : answer = none ↔ w.Denies layout
  denied : answer = none → w'.arena = w.arena ∧ w'.ledger = w.ledger
  suits : ∀ pointer, answer = some pointer → w.Suits layout pointer
  kept : ∀ qa, w.Foreign qa → w'.memory.get qa = w.memory.get qa

/-- An allocation adds its block to those that are live. -/
structure Supplied (w : World) (layout : Layout) (answer : Option VirtAddr) (w' : World) : Prop
    extends w.Served layout answer w' where
  ledger : ∀ pointer, answer = some pointer →
    w'.ledger = insert (layout.blockAt w.heap.map pointer) w.ledger

/-- An allocation of zeros. -/
structure Zeroed (w : World) (layout : Layout) (answer : Option VirtAddr) (w' : World) : Prop
    extends w.Supplied layout answer w' where
  zero : ∀ pointer, answer = some pointer → ∀ i < layout.size.toNat,
    w'.memory.get (Memory.offset (w.heap.map.toPhysical pointer) i) = 0

/-- A block that is moved is live no more, so that a free of it is refused, and
the new block has its bytes. -/
structure Moved (w : World) (layout : Layout) (pointer : VirtAddr) (newSize : UInt64)
    (answer : Option VirtAddr) (w' : World) : Prop
    extends w.Served { layout with size := newSize } answer w' where
  gone : ∀ target, answer = some target → layout.blockAt w.heap.map pointer ∉ w'.ledger
  refused : ∀ target, answer = some target → ∃ machine,
    (free (w.heap.map.toPhysical pointer)).run w'.machine =
      some (.refuse (.invalidFree (w.heap.map.toPhysical pointer)), machine) ∧
    machine.state = w'.arena
  ledger : ∀ target, answer = some target →
    w'.ledger = insert (Layout.blockAt { layout with size := newSize } w.heap.map target)
      (w.ledger.erase (layout.blockAt w.heap.map pointer))
  contents : ∀ target, answer = some target → ∀ i < (min layout.size newSize).toNat,
    w'.memory.get (Memory.offset (w.heap.map.toPhysical target) i) =
      w.memory.get (Memory.offset (w.heap.map.toPhysical pointer) i)

theorem Granted.supplied (h : w.Granted layout pointer w') (hnot : ¬ w.Denies layout) :
    w.Supplied layout (some pointer) w' where
  steps := h.steps
  none_iff := iff_of_false nofun hnot
  denied := nofun
  suits := by
    rintro _ ⟨⟩
    exact h.suits
  kept := h.kept
  ledger := by
    rintro _ ⟨⟩
    exact h.ledger

theorem served_none
    (hdenied : w.Denies layout)
    (hrun : (allocLayout layout).run w.machine = some (.ok none, machine))
    (hstate : machine.state = w.arena) :
    w.Served layout none (w.called (.allocLayout layout) (.ok none) machine) where
  steps := .single (.call trivial hrun)
  none_iff := iff_of_true rfl hdenied
  denied := fun _ => ⟨hstate, rfl⟩
  suits := nofun
  kept := by
    intro qa _
    change machine.state.memory.get qa = _
    rw [hstate]

/-- A pointer to a live block is not the null pointer. -/
theorem Tracked.isNull_eq_false
    (ht : w.Tracked) (hw : w.Orderly) (hlive : layout.blockAt w.heap.map pointer ∈ w.ledger) :
    pointer.isNull = false := by
  obtain ⟨hlow, hstop, hhigh⟩ := ht.bounds_of_mem hw hlive
  rw [← w.heap.map.toVirtual_toPhysical pointer]
  exact hw.framed.reaches _ (Nat.le_of_lt hlow) (Nat.lt_of_lt_of_le hstop hhigh)

section Requests

variable (h : Reachable Rules.tidy w) (hmap : 4096 ∣ w.heap.map.offset.toNat)
include h hmap

theorem Reachable.exists_supplied (layout : Layout) :
    ∃ answer w', (allocLayout layout).run w.machine = some (.ok answer, w'.machine) ∧
      w.Supplied layout answer w' := by
  rcases h.allocLayout_cases hmap layout with
    ⟨hnot, pointer, machine, hrun, hgranted⟩ | ⟨hdenied, machine, hrun, hstate⟩
  · exact ⟨_, _, hrun, hgranted.supplied hnot⟩
  · exact ⟨_, _, hrun, { served_none hdenied hrun hstate with ledger := nofun }⟩

theorem Reachable.exists_zeroed (layout : Layout) :
    ∃ answer w', ((blockAllocator w.heap.map).allocZeroed layout).run w.machine =
      some (.ok answer, w'.machine) ∧ w.Zeroed layout answer w' := by
  rcases h.allocLayout_cases hmap layout with
    ⟨hnot, pointer, machine, hrun, hgranted⟩ | ⟨hdenied, machine, hrun, hstate⟩
  · have hzeroed := hgranted.fold_set (h.steps hgranted.steps) layout.size_le_units fun _ _ => 0
    refine ⟨_, _, run_allocZeroed_some hrun, { hzeroed.supplied hnot with zero := ?_ }⟩
    rintro _ ⟨⟩ i hi
    exact Memory.get_fill_offset _ _ layout.size.toNat_lt hi 0
  · exact ⟨_, _, run_allocZeroed_none hrun,
      { served_none hdenied hrun hstate with ledger := nofun, zero := nofun }⟩

/-- Moving a block is an allocation, a copy to the new block and the free of the
old one, each of which keeps what the ones before it have left. -/
theorem Reachable.exists_moved
    {layout : Layout} {pointer : VirtAddr}
    (hlive : layout.blockAt w.heap.map pointer ∈ w.ledger) (newSize : UInt64) :
    ∃ answer w', ((blockAllocator w.heap.map).realloc pointer layout newSize).run w.machine =
      some (.ok answer, w'.machine) ∧ w.Moved layout pointer newSize answer w' := by
  rcases h.allocLayout_cases hmap { layout with size := newSize } with
    ⟨hnot, target, machine, hrun, hgranted⟩ | ⟨hdenied, machine, hrun, hstate⟩
  swap
  · exact ⟨_, _, run_realloc_none hrun, { served_none hdenied hrun hstate with
      gone := nofun, refused := nofun, ledger := nofun, contents := nofun }⟩
  have hold := UInt64.le_iff_toNat_le.1 (Std.min_le_left : min layout.size newSize ≤ _)
  have hnew := UInt64.le_iff_toNat_le.1 (Std.min_le_right : min layout.size newSize ≤ _)
  replace hold := hold.trans layout.size_le_units
  replace hnew := hnew.trans (Layout.size_le_units { layout with size := newSize })
  -- the bytes go to the new block
  let w₁ := w.called (.allocLayout { layout with size := newSize }) (.ok (some target)) machine
  let w₂ := w₁.withMemory (w₁.memory.copy (w.heap.map.toPhysical pointer)
    (w.heap.map.toPhysical target) (min layout.size newSize).toNat)
  have hcopied : w.Granted { layout with size := newSize } target w₂ :=
    hgranted.fold_set (h.steps hgranted.steps) (by rwa [Memory.size_read]) _
  have h₂ : Reachable Rules.tidy w₂ := h.steps hcopied.steps
  -- the old block is taken back
  have hlive₂ : layout.blockAt w.heap.map pointer ∈ w₂.ledger := by
    rw [hcopied.ledger]
    exact mem_insert_of_mem hlive
  have haddress : (layout.blockAt w.heap.map pointer).address =
      w₂.heap.map.toPhysical pointer := by
    rw [hcopied.map]
    rfl
  obtain ⟨final, hdealloc, hstep, hledger, haway, hkept⟩ :=
    h₂.exists_dealloc (h.tracked.isNull_eq_false h.orderly hlive) hlive₂ haddress
  have h₃ : Reachable Rules.tidy (w₂.called (.dealloc pointer) (.ok ()) final) := h₂.step hstep
  have hledger' : (w₂.called (.dealloc pointer) (.ok ()) final).ledger =
      (insert (Layout.blockAt { layout with size := newSize } w.heap.map target)
        w.ledger).erase (layout.blockAt w.heap.map pointer) :=
    hledger.trans (by rw [hcopied.ledger])
  have hne : Layout.blockAt { layout with size := newSize } w.heap.map target ≠
      layout.blockAt w.heap.map pointer := by
    intro heq
    exact hcopied.new (heq ▸ hlive)
  refine ⟨_, w₂.called (.dealloc pointer) (.ok ()) final, run_realloc_some hrun hdealloc,
    { hcopied.supplied hnot with
      steps := hcopied.steps.tail hstep
      denied := nofun
      kept := fun qa hqa => (hkept qa (hcopied.foreign qa hqa)).trans (hcopied.kept qa hqa)
      gone := ?_
      refused := fun _ _ => h₃.exists_refused_free haway
      ledger := ?_
      contents := ?_ }⟩
  · rintro _ ⟨⟩
    rw [hledger']
    exact notMem_erase _ _
  · rintro _ ⟨⟩
    rw [hledger', erase_insert_of_ne hne]
  · rintro _ ⟨⟩ i hi
    have hnew₂ := h₂.tracked.covers_offset h₂.orderly hcopied.mem (Nat.lt_of_lt_of_le hi hnew)
    have hold₀ := h.tracked.covers_offset h.orderly hlive (Nat.lt_of_lt_of_le hi hold)
    calc
      final.state.memory.get (Memory.offset (w.heap.map.toPhysical target) i)
          = w₂.memory.get (Memory.offset (w.heap.map.toPhysical target) i) :=
        hkept _ (Or.inl ⟨_, mem_union_left _ hcopied.mem, hnew₂⟩)
      _ = w₁.memory.get (Memory.offset (w.heap.map.toPhysical pointer) i) :=
        Memory.get_copy_offset _ _ _ (UInt64.toNat_lt _) hi
      _ = w.memory.get (Memory.offset (w.heap.map.toPhysical pointer) i) :=
        hgranted.kept _ (Or.inl ⟨_, mem_union_left _ hlive, hold₀⟩)

end Requests

/-- In every reachable world whose pool is shown by a multiple of a frame, blocks
by layout are aligned, nobody else's, and keep their contents: as they come,
zeroed, and moved.  No byte that was somebody's before the request has changed
after it. -/
theorem Reachable.layout_blocks_keep_contents
    (h : Reachable Rules.tidy w) (hmap : 4096 ∣ w.heap.map.offset.toNat) :
    (∀ layout, ∃ answer w', (allocLayout layout).run w.machine = some (.ok answer, w'.machine) ∧
      w.Supplied layout answer w') ∧
    (∀ layout, ∃ answer w', ((blockAllocator w.heap.map).allocZeroed layout).run w.machine =
      some (.ok answer, w'.machine) ∧ w.Zeroed layout answer w') ∧
    ∀ layout pointer newSize, layout.blockAt w.heap.map pointer ∈ w.ledger →
      ∃ answer w', ((blockAllocator w.heap.map).realloc pointer layout newSize).run w.machine =
        some (.ok answer, w'.machine) ∧ w.Moved layout pointer newSize answer w' :=
  ⟨h.exists_supplied hmap, h.exists_zeroed hmap,
    fun _ _ newSize hlive => h.exists_moved hmap hlive newSize⟩

/-- A pool that is shown from the second page of virtual memory on: its first
block comes zeroed, and the block behind `0x1400` moves with as many of its bytes
as there is room for. -/
theorem exists_moved_block :
    ∃ (v v' w w' : World) (pointer target : VirtAddr) (m : Machine LockName Arena),
      (Reachable Rules.tidy v ∧ v.heap.map.toVirtual v.frames.base = ⟨0x1000⟩ ∧
        ((blockAllocator v.heap.map).allocZeroed ⟨100, 16⟩).run v.machine =
          some (.ok (some pointer), v'.machine) ∧
        v.Suits ⟨100, 16⟩ pointer ∧ ∀ i < 100,
          v'.memory.get (Memory.offset (v.heap.map.toPhysical pointer) i) = 0) ∧
      Reachable Rules.tidy w ∧ w.ledger = {⟨⟨0x100400⟩, 7⟩} ∧
        ((blockAllocator w.heap.map).realloc ⟨0x1400⟩ ⟨100, 16⟩ 32).run w.machine =
          some (.ok (some target), w'.machine) ∧
        ⟨⟨0x100400⟩, 7⟩ ∉ w'.ledger ∧
        (free ⟨0x100400⟩).run w'.machine =
          some (.refuse (.invalidFree ⟨0x100400⟩), m) ∧ ∀ i < 32,
          w'.memory.get (Memory.offset (w.heap.map.toPhysical target) i) =
            w.memory.get (Memory.offset ⟨0x100400⟩ i) := by
  obtain ⟨v, w, m, hfresh, hw, hmapv, hbase, hrun, hmap, hledger, slot, hhas⟩ :=
    exists_block_at_second_page
  have hv : Reachable Rules.tidy v := .fresh hfresh
  have hstart : v.heap.map.toVirtual v.frames.base = ⟨0x1000⟩ := by
    rw [hmapv, hbase]
    decide
  have hmultiple : 4096 ∣ (DirectMap.at (0x1000 - 0x100000)).offset.toNat := by decide
  -- the first block comes zeroed
  obtain ⟨-, hzeroed, -⟩ := hv.layout_blocks_keep_contents (hmapv ▸ hmultiple)
  obtain ⟨answer, v', hrunv, hanswer⟩ := hzeroed ⟨100, 16⟩
  have hserved : ¬ v.Denies ⟨100, 16⟩ := hv.not_denies ⟨_, m, hrun⟩
  obtain ⟨pointer, rfl⟩ := Option.ne_none_iff_exists'.1 (hserved ∘ hanswer.none_iff.1)
  -- there is room for two units behind it
  obtain ⟨-, -, hmoved⟩ := hw.layout_blocks_keep_contents (hmap ▸ hmultiple)
  have hled : w.heap.map.toPhysical ⟨0x1400⟩ = ⟨0x100400⟩ := by
    rw [hmap]
    decide
  have hlive : Layout.blockAt ⟨100, 16⟩ w.heap.map ⟨0x1400⟩ = ⟨⟨0x100400⟩, 7⟩ := by
    rw [Layout.blockAt, hled]
    decide
  have hfits : (⟨⟨0x100000⟩, 16, 7⟩ : Region).Fits w.memory 2 1 72 :=
    (hw.fits_behind_block hledger hhas).mono (le_refl 2) (one_dvd 4)
  have hserves : Serves w.machine 32 16 :=
    hw.serves_iff.2 ⟨by decide, ⟨4, rfl⟩, by decide, .existing hhas hfits⟩
  obtain ⟨answer', w', hrunw, hanswer'⟩ :=
    hmoved ⟨100, 16⟩ ⟨0x1400⟩ 32 (by rw [hlive, hledger]; exact mem_singleton_self _)
  have hserved' : ¬ w.Denies ⟨32, 16⟩ := hw.not_denies hserves
  obtain ⟨target, rfl⟩ := Option.ne_none_iff_exists'.1 (hserved' ∘ hanswer'.none_iff.1)
  have hgone := hanswer'.gone target rfl
  have hcontents := hanswer'.contents target rfl
  obtain ⟨m', hrefused, -⟩ := hanswer'.refused target rfl
  rw [hlive] at hgone
  rw [hled] at hcontents hrefused
  exact ⟨v, v', w, w', pointer, target, m', ⟨hv, hstart, hrunv, hanswer.suits pointer rfl,
    hanswer.zero pointer rfl⟩, hw, hledger, hrunw, hgone, hrefused, hcontents⟩

end World

end KernelMemory
