import KernelMemory.Proofs.World.Boot

/-!
# Isolation of client memory

Which bytes of memory the heap changes.  Whatever clients have stored, a call
writes only to the maps of regions; under the discipline these lie outside
every block and every frame of a client.  The main statement
`clients_isolated` puts both together, with what follows for a byte that a
client has stored.
-/

namespace KernelMemory

open Arena Finset Program RegionTable

/-! ## The window of a change -/

namespace Arena

variable {arena arena₁ arena' : Arena} {units align slot first count index : ℕ} {region : Region}

/-- A region that was just leased lies on frames that were free. -/
theorem Leases.frameRun_free
    (hleases : arena.Leases arena₁ count slot index region) :
    Disjoint arena.frames.leasedFrames (region.frameRun arena₁.frames) := by
  obtain ⟨hinside, hframes⟩ := hleases.frames
  have hbase : arena₁.frames.base = arena.frames.base := by rw [hframes]; rfl
  have hfirst : region.firstFrame arena.frames = index := Region.firstFrame_eq hleases.start
  rw [Region.frameRun_of_base hbase, Region.frameRun, hfirst, hleases.size]
  exact FramePool.disjoint_of_fits hleases.least.1

end Arena

namespace World

variable {w w' : World} {rules : Rules} {pa : PhysAddr}

/-- A byte that a call changed lies in the maps of a region, which was in the
table before or is on frames that were free. -/
theorem Change.inMaps_of_ne
    {arena' : Arena} {ledger' : Finset Block} {held' : Finset ℕ}
    (h : w.Change arena' ledger' held') (hne : arena'.memory.get pa ≠ w.memory.get pa) :
    ∃ slot region, Has arena'.heap.regions slot region ∧ region.InMaps pa ∧
      ((∃ before, Has w.regions slot before ∧ before.InMaps pa) ∨
        Disjoint w.frames.leasedFrames (region.frameRun arena'.frames)) := by
  cases h with
  | kept => exact absurd rfl hne
  | allocated request allocates =>
      cases allocates with
      | @placed _ slot first region before places =>
          have hin : region.InMaps pa := by
            by_contra hout
            exact hne (places.placement.maps.kept pa hout)
          exact ⟨slot, _, places.has_withBlock, hin, Or.inl ⟨region, places.has, hin⟩⟩
      | @grown arena₁ _ count slot index first region full size leases places =>
          have hin : region.InMaps pa := by
            by_contra hout
            exact hne ((places.placement.maps.kept pa hout).trans (leases.maps.kept pa hout))
          refine ⟨slot, _, places.has_withBlock, hin, Or.inr ?_⟩
          rw [places.frames]
          exact leases.frameRun_free
  | freed frees =>
      cases frees with
      | @freed _ slot first last region has address removal held frames heap =>
          have hin : region.InMaps pa := by
            by_contra hout
            exact hne (removal.maps.kept pa hout)
          refine ⟨slot, region.withoutBlock (last - first), ?_, hin, Or.inl ⟨region, has, hin⟩⟩
          rw [heap]
          exact (has_set_self_iff has.lt).2 rfl
  | overdrawn frees =>
      cases frees with
      | @overdrawn _ slot first last region has address removal held =>
          have hin : region.InMaps pa := by
            by_contra hout
            exact hne (removal.maps.kept pa hout)
          exact ⟨slot, region, has, hin, Or.inl ⟨region, has, hin⟩⟩
  | released framed released => exact absurd (congrArg (Memory.get · pa) released.memory) hne
  | leased inside free => exact absurd rfl hne
  | returned inside leased owned => exact absurd rfl hne

theorem Orderly.inMaps_of_ne
    (hw : w.Orderly) (hstep : w.Step Rules.quiet w')
    (hne : w'.memory.get pa ≠ w.memory.get pa) :
    ∃ slot region, Has w'.regions slot region ∧ region.InMaps pa ∧
      ((∃ before, Has w.regions slot before ∧ before.InMaps pa) ∨
        Disjoint w.frames.leasedFrames (region.frameRun w'.frames)) ∧
      w'.frames.base = w.frames.base := by
  cases hstep with
  | call permitted run =>
      obtain ⟨-, hchange⟩ := hw.called_change permitted run
      obtain ⟨slot, region, hhas, hin, hbefore⟩ := hchange.inMaps_of_ne hne
      exact ⟨slot, region, hhas, hin, hbefore, hchange.base_eq⟩
  | store permitted => exact permitted.elim
  | drop permitted reaches run =>
      obtain ⟨-, outside, -, hdropped⟩ := hw.teardown_run run
      exact absurd (congrArg (Memory.get · pa) hdropped.memory) hne

/-! ## Under the discipline -/

/-- The bytes that belong to somebody else than the heap: those of blocks, and
those of frames that direct callers hold or that were left behind. -/
def Foreign (w : World) (pa : PhysAddr) : Prop :=
  w.InBlock pa ∨ w.InFrames (w.held ∪ w.abandoned) pa

theorem Tracked.not_inMaps_of_foreign
    (ht : w.Tracked) (hw : w.Orderly) (hpa : w.Foreign pa) {slot : ℕ} {region : Region}
    (hhas : Has w.regions slot region) : ¬ region.InMaps pa := by
  rcases hpa with hblock | hframe
  · exact ht.not_inMaps_of_inBlock hw hhas hblock
  · exact fun hin => hw.not_inMaps_of_inFrames (subset_refl _) hhas hframe
      (Region.contains_of_inMaps hin)

/-- What belongs to somebody lies in leased frames. -/
theorem Tracked.inFrames_of_foreign
    (ht : w.Tracked) (hw : w.Orderly) (hpa : w.Foreign pa) :
    w.InFrames w.frames.leasedFrames pa := by
  have houtside := hw.framed.outside_subset
  rcases hpa with ⟨b, hb, hcovers⟩ | ⟨i, hi, hlow, hhigh⟩
  · rcases mem_union.1 hb with hb | hb
    · obtain ⟨slot, region, hhas, hholds⟩ := ht.recorded.held b hb
      obtain ⟨i, hi, hlow, hhigh⟩ := (hw.framed.onFrames slot region hhas).exists_frame
        (Region.contains_of_covers hholds hcovers)
      exact ⟨i, hw.framed.frameRun_subset hhas hi, hlow, hhigh⟩
    · obtain ⟨i, hi, hlow, hhigh⟩ := ht.orphans b hb pa hcovers
      exact ⟨i, houtside (mem_union_right _ hi), hlow, hhigh⟩
  · exact ⟨i, houtside hi, hlow, hhigh⟩

/-- A byte that a step changed belongs to nobody, before and after. -/
theorem Reachable.not_foreign_of_ne
    (h : Reachable Rules.tidy w) (hstep : w.Step Rules.quiet w')
    (hne : w'.memory.get pa ≠ w.memory.get pa) : ¬ w.Foreign pa ∧ ¬ w'.Foreign pa := by
  have hw := h.orderly
  have h' : Reachable Rules.tidy w' := h.step hstep.tidy_of_quiet
  obtain ⟨slot, region, hhas, hin, hbefore, hbase⟩ := hw.inMaps_of_ne hstep hne
  constructor
  · intro hpa
    rcases hbefore with ⟨before, hhas', hin'⟩ | hfree
    · exact h.tracked.not_inMaps_of_foreign hw hpa hhas' hin'
    · -- the byte would lie in a frame that was both leased and free
      obtain ⟨i, hi, hlow, hhigh⟩ := h.tracked.inFrames_of_foreign hw hpa
      rw [FramePool.frameStart, ← hbase, ← FramePool.frameStart] at hlow hhigh
      have hrun := (h'.orderly.framed.onFrames slot region hhas).mem_frameRun
        (Region.contains_of_inMaps hin) hlow hhigh
      exact disjoint_left.1 hfree hi hrun
  · exact fun hpa => h'.tracked.not_inMaps_of_foreign h'.orderly hpa hhas hin

/-- What is somebody's keeps its bytes while nobody stores. -/
theorem Reachable.get_eq_of_foreign
    (h : Reachable Rules.tidy w) (hstep : w.Step Rules.quiet w') (hpa : w.Foreign pa) :
    w'.memory.get pa = w.memory.get pa := by
  by_contra hne
  exact (h.not_foreign_of_ne hstep hne).1 hpa

/-! ## A stored byte -/

/-- A step in which nobody stores to an address or frees a block. -/
def StepAround (b : Block) (pa : PhysAddr) (w w' : World) : Prop :=
  w.Step (Rules.tidy.sparing pa) w' ∧ b ∈ w'.ledger ∪ w'.orphans

theorem StepAround.get_eq
    {b : Block} (hstep : w.StepAround b pa w') (h : Reachable Rules.tidy w)
    (hb : b ∈ w.ledger ∪ w.orphans) (hcovers : b.Covers pa.val.toNat) :
    w'.memory.get pa = w.memory.get pa := by
  have hforeign : w.Foreign pa := Or.inl ⟨b, hb, hcovers⟩
  obtain ⟨hstep, -⟩ := hstep
  cases hstep with
  | call permitted run => exact h.get_eq_of_foreign (.call permitted run) hforeign
  | @store qa byte permitted =>
      change (w.memory.set qa byte).get pa = w.memory.get pa
      rw [Memory.get_set, if_neg (Ne.symm permitted.2)]
  | drop permitted reaches run =>
      exact h.get_eq_of_foreign (.drop permitted reaches run) hforeign

/-- A byte of a live block keeps its value while the block stays live and
nobody else stores to it. -/
theorem Reachable.get_eq_of_around
    {b : Block} (h : Reachable Rules.tidy w) (hb : b ∈ w.ledger ∪ w.orphans)
    (hcovers : b.Covers pa.val.toNat) (hrun : Relation.ReflTransGen (StepAround b pa) w w') :
    w'.memory.get pa = w.memory.get pa := by
  have hreached : Reachable Rules.tidy w' ∧ b ∈ w'.ledger ∪ w'.orphans ∧
      w'.memory.get pa = w.memory.get pa := by
    induction hrun with
    | refl => exact ⟨h, hb, rfl⟩
    | @tail u v _ hstep ih =>
        obtain ⟨hu, hbu, hget⟩ := ih
        exact ⟨hu.step hstep.1.tidy_of_sparing, hstep.2,
          (hstep.get_eq hu hbu hcovers).trans hget⟩
  exact hreached.2.2

/-- A step in which nobody stores changes only bytes in the maps of regions
that are in the table or that the step leases, whatever was stored before.
Under the discipline these belong to no client before or after the step, so a
byte stored in a live block reads back after any steps of others. -/
theorem clients_isolated :
    (∀ w w' : World, Reachable Rules.wild w → w.Step Rules.quiet w' →
      ∀ pa, w'.memory.get pa ≠ w.memory.get pa →
        ∃ slot region, region.InMaps pa ∧ (Has w.regions slot region ∨
          Has w'.regions slot region ∧ region.frameRun w'.frames ⊆
            w'.frames.leasedFrames \ w.frames.leasedFrames)) ∧
    (∀ w w' : World, Reachable Rules.tidy w → w.Step Rules.quiet w' →
      ∀ pa, w'.memory.get pa ≠ w.memory.get pa → ¬ w.Foreign pa ∧ ¬ w'.Foreign pa) ∧
    ∀ (w w' : World) (b : Block) (pa : PhysAddr) (byte : UInt8), Reachable Rules.tidy w →
      b ∈ w.ledger → b.Covers pa.val.toNat →
      Relation.ReflTransGen (StepAround b pa) (w.stored pa byte) w' →
      w'.memory.get pa = byte := by
  refine ⟨fun w w' h hstep pa hne => ?_, fun w w' h hstep pa hne => h.not_foreign_of_ne hstep hne,
    fun w w' b pa byte h hb hcovers hrun => ?_⟩
  · obtain ⟨slot, region, hhas, hin, hbefore, -⟩ := h.orderly.inMaps_of_ne hstep hne
    rcases hbefore with ⟨before, hhas', hin'⟩ | hfree
    · exact ⟨slot, before, hin', Or.inl hhas'⟩
    · have hstep' : w.Step Rules.wild w' := hstep.mono (fun _ _ hstore => hstore.elim) id
      have hw' := (h.step hstep').orderly
      refine ⟨slot, region, hin, Or.inr ⟨hhas, fun i hi => mem_sdiff.2 ⟨?_, ?_⟩⟩⟩
      · exact hw'.framed.frameRun_subset hhas hi
      · exact fun hleased => disjoint_left.1 hfree hleased hi
  · have hmem : b ∈ w.ledger ∪ w.orphans := mem_union_left _ hb
    have hstored : Reachable Rules.tidy (w.stored pa byte) :=
      h.step (.store (Or.inl ⟨b, hmem, hcovers⟩))
    rw [hstored.get_eq_of_around hmem hcovers hrun]
    change (w.memory.set pa byte).get pa = byte
    rw [Memory.get_set, if_pos rfl]

/-- The first allocation of a heap writes its maps, and the next one leaves the
bytes of its block. -/
theorem exists_isolated_block :
    ∃ (w w' w'' : World) (pa : PhysAddr),
      (Reachable Rules.tidy w ∧ w.Step Rules.quiet w' ∧ w'.memory.get pa ≠ w.memory.get pa ∧
        ¬ w'.Foreign pa ∧ ∃ slot region, region.InMaps pa ∧ (Has w.regions slot region ∨
          Has w'.regions slot region ∧ region.frameRun w'.frames ⊆
            w'.frames.leasedFrames \ w.frames.leasedFrames)) ∧
      w'.ledger = {⟨⟨0x100400⟩, 7⟩} ∧
      (w'.stored ⟨0x100408⟩ 171).StepAround ⟨⟨0x100400⟩, 7⟩ ⟨0x100408⟩ w'' ∧
      w''.memory.get ⟨0x100408⟩ = 171 := by
  obtain ⟨w, w', hfresh, hzero, hstep, hledger, -⟩ := exists_first_block Rules.quiet
  obtain ⟨hwindow, hforeign, hread⟩ := clients_isolated
  let b : Block := ⟨⟨0x100400⟩, 7⟩
  have h' : Reachable Rules.tidy w' := .step (.fresh hfresh) hstep.tidy_of_quiet
  have hb : b ∈ w'.ledger := by
    rw [hledger]
    exact mem_singleton_self b
  have hcovers : b.Covers (⟨0x100408⟩ : PhysAddr).val.toNat := by decide
  -- the first unit of the block's region is marked, and memory was zero
  obtain ⟨slot, region, hhas, -⟩ := h'.tracked.recorded.held b hb
  have hreserved : 0 < region.reserved ∧ region.reserved < region.units := by
    have hpos := (h'.orderly.framed.valid slot region hhas).frames_pos
    rw [region.reserved_eq, region.units_eq]
    omega
  have hused : region.usedAt w'.memory 0 = true :=
    ((h'.tracked.recorded.mapped slot region hhas).used 0 (by omega)).2 (Or.inl hreserved.1)
  have hne : w'.memory.get (Memory.offset region.base (0 / 8)) ≠
      w.memory.get (Memory.offset region.base (0 / 8)) := by
    intro heq
    rw [Region.usedAt, Memory.bit, heq, hzero] at hused
    exact absurd hused (by decide)
  -- another client allocates
  have hstored : Reachable Rules.tidy (w'.stored ⟨0x100408⟩ 171) :=
    h'.step (.store (Or.inl ⟨b, mem_union_left _ hb, hcovers⟩))
  obtain ⟨result, machine, hrun⟩ := hstored.orderly.exists_run (.alloc 100) trivial
  have haround : (w'.stored ⟨0x100408⟩ 171).StepAround b ⟨0x100408⟩
      ((w'.stored ⟨0x100408⟩ 171).called (.alloc 100) result machine) := by
    have hb' : b ∈ (w'.stored ⟨0x100408⟩ 171).ledger := by
      rw [ledger_stored]
      exact hb
    exact ⟨.call trivial hrun, mem_union_left _ (ledger_subset_called rfl result machine hb')⟩
  refine ⟨w, w', _, _, ⟨.fresh hfresh, hstep, hne, ?_, ?_⟩, hledger, haround, ?_⟩
  · exact (hforeign w w' (.fresh hfresh) hstep _ hne).2
  · exact hwindow w w' (.fresh hfresh) hstep _ hne
  · exact hread w' _ b _ _ h' hb hcovers (.single haround)

end World

end KernelMemory
