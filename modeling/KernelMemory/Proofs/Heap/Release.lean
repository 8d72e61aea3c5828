import KernelMemory.Heap.Blocks
import KernelMemory.Proofs.Heap.Framing

/-!
# Releasing regions

What becomes of the table when the heap gives regions back, when it goes away,
and what its usage says.  A release keeps memory and the counters, and takes
exactly the regions without blocks off the table; a heap that goes away leaves
the frames of its other regions leased.
-/

namespace KernelMemory.Arena

open Finset Program RegionTable

variable {arena : Arena} {outside : Finset ℕ} {locks : Locks LockName}

theorem yields_region? (arena : Arena) (locks : Locks LockName) (slot : ℕ) :
    (inspect (fun arena : Arena => arena.heap.region? slot) :
      Program LockName Arena (Option Region)).Yields locks arena
        (.ok (arena.heap.region? slot)) arena :=
  yields_inspect _

/-! ## Empty regions -/

/-- An arena after the regions without blocks among some slots have been given
back, `n` of them. -/
structure Released (arena arena' : Arena) (slots : List ℕ) (n : ℕ) : Prop where
  memory : arena'.memory = arena.memory
  map : arena'.heap.map = arena.heap.map
  allocatedBytes : arena'.heap.allocatedBytes = arena.heap.allocatedBytes
  liveAllocations : arena'.heap.liveAllocations = arena.heap.liveAllocations
  base : arena'.frames.base = arena.frames.base
  totalMemory : arena'.frames.totalMemory = arena.frames.totalMemory
  has_iff : ∀ slot region, Has arena'.heap.regions slot region ↔
    Has arena.heap.regions slot region ∧ ¬ (slot ∈ slots ∧ region.used = 0)
  used : total Region.used arena'.heap.regions = total Region.used arena.heap.regions
  count : total (fun _ => 1) arena'.heap.regions + n = total (fun _ => 1) arena.heap.regions

/-- Nothing is given back where no slot has a region without blocks. -/
theorem Released.keep
    {slots : List ℕ} (hkept : ∀ slot region, slot ∈ slots → Has arena.heap.regions slot region →
      region.used ≠ 0) : Released arena arena slots 0 where
  memory := rfl
  map := rfl
  allocatedBytes := rfl
  liveAllocations := rfl
  base := rfl
  totalMemory := rfl
  has_iff slot region :=
    ⟨fun hhas => ⟨hhas, fun hgone => hkept slot region hgone.1 hhas hgone.2⟩, And.left⟩
  used := rfl
  count := rfl

theorem Released.drop
    {arena' : Arena} {slot : ℕ} {region : Region} (hhas : Has arena.heap.regions slot region)
    (hused : region.used = 0) (hmemory : arena'.memory = arena.memory)
    (hbase : arena'.frames.base = arena.frames.base)
    (htotal : arena'.frames.totalMemory = arena.frames.totalMemory)
    (hheap : arena'.heap = arena.heap.setSlot slot none) : Released arena arena' [slot] 1 where
  memory := hmemory
  map := by rw [hheap]; rfl
  allocatedBytes := by rw [hheap]; rfl
  liveAllocations := by rw [hheap]; rfl
  base := hbase
  totalMemory := htotal
  has_iff j r := by
    rw [hheap]
    change Has (arena.heap.regions.set slot none) j r ↔ _
    rw [has_set_none_iff, List.mem_singleton]
    refine and_congr_right fun hr => ⟨fun hj hgone => hj hgone.1, fun hkept hj => ?_⟩
    subst hj
    cases hhas.unique hr
    exact hkept ⟨rfl, hused⟩
  used := by
    have hset := total_set Region.used none hhas
    rw [Option.elim_some, hused] at hset
    rw [hheap]
    exact hset
  count := by
    rw [hheap]
    exact total_set (fun _ => 1) none hhas

/-- A slot without a region, or with one that holds a block, is left alone. -/
theorem releaseSlot_of_occupied
    {slot : ℕ} (hkept : ∀ region, Has arena.heap.regions slot region → region.used ≠ 0) :
    (releaseSlot slot).Yields locks arena (.ok false) arena := by
  have hslot := yields_region? arena locks slot
  cases hregion : arena.heap.region? slot with
  | none =>
      rw [hregion] at hslot
      exact hslot.bind (yields_pure false)
  | some region =>
      rw [hregion] at hslot
      refine hslot.bind ?_
      simp only []
      rw [if_neg (hkept region (region?_eq_some_iff.1 hregion))]
      exact yields_pure false

theorem releaseSlot_of_vacant
    {slot : ℕ} {region : Region} (h : arena.Framed outside) (hfree : locks.IsFree .frames)
    (hhas : Has arena.heap.regions slot region) (hused : region.used = 0) :
    (releaseSlot slot).Yields locks arena (.ok true) { arena with
      frames := arena.frames.returning _ _ (h.returnable hhas).inside
      heap := arena.heap.setSlot slot none } := by
  have hslot := yields_region? arena locks slot
  rw [region?_eq_some_iff.2 hhas] at hslot
  refine hslot.bind ?_
  simp only []
  rw [if_pos hused]
  refine (within_framesPart (FramePool.giveBack_of_returnable hfree
    (h.returnable hhas))).outcome_ok.bind ?_
  exact (yields_report _).bind ((yields_update _).bind (yields_pure true))

/-- Giving one slot back takes its region off the table if it holds no block. -/
theorem releaseSlot_cases
    (h : arena.Framed outside) (hfree : locks.IsFree .frames) (slot : ℕ) :
    ∃ gone arena', (releaseSlot slot).Yields locks arena (.ok gone) arena' ∧
      arena'.Framed outside ∧ Released arena arena' [slot] (if gone then 1 else 0) := by
  by_cases hvacant : ∃ region, Has arena.heap.regions slot region ∧ region.used = 0
  · obtain ⟨region, hhas, hused⟩ := hvacant
    exact ⟨true, _, releaseSlot_of_vacant h hfree hhas hused, h.returnRegion hhas rfl rfl rfl,
      .drop hhas hused rfl rfl rfl rfl⟩
  · have hkept (region : Region) (hhas : Has arena.heap.regions slot region) :
        region.used ≠ 0 := fun hused => hvacant ⟨region, hhas, hused⟩
    refine ⟨false, arena, releaseSlot_of_occupied hkept, h, .keep fun j r hj hr => ?_⟩
    rw [List.mem_singleton.1 hj] at hr
    exact hkept r hr

/-- A release finds nothing to do where every region holds a block. -/
theorem releaseSlots_of_occupied
    {slots : List ℕ}
    (hoccupied : ∀ slot region, Has arena.heap.regions slot region → region.used ≠ 0) :
    (releaseSlots slots).Yields locks arena (.ok 0) arena := by
  induction slots with
  | nil => exact yields_pure 0
  | cons slot rest ih =>
      exact (releaseSlot_of_occupied (hoccupied slot)).bind (ih.bind (yields_pure 0))

/-- A release takes off the one region that holds no block. -/
theorem releaseSlots_of_vacant
    {slots : List ℕ} {slot : ℕ} {region : Region} (h : arena.Framed outside)
    (hfree : locks.IsFree .frames) (hhas : Has arena.heap.regions slot region)
    (hused : region.used = 0)
    (hothers : ∀ j r, Has arena.heap.regions j r → j ≠ slot → r.used ≠ 0) (hslot : slot ∈ slots) :
    (releaseSlots slots).Yields locks arena (.ok 1) { arena with
      frames := arena.frames.returning _ _ (h.returnable hhas).inside
      heap := arena.heap.setSlot slot none } := by
  induction slots with
  | nil => exact absurd hslot List.not_mem_nil
  | cons j rest ih =>
      by_cases hj : j = slot
      · subst hj
        refine (releaseSlot_of_vacant h hfree hhas hused).bind (Yields.bind ?_ (yields_pure 1))
        refine releaseSlots_of_occupied fun k r hr => ?_
        obtain ⟨hr, hk⟩ := has_set_none_iff.1 hr
        exact hothers k r hr hk
      · have hrest : slot ∈ rest := (List.mem_cons.1 hslot).resolve_left (Ne.symm hj)
        refine (releaseSlot_of_occupied fun r hr => hothers j r hr hj).bind ?_
        exact (ih hrest).bind (yields_pure 1)

theorem Released.trans
    {arena₁ arena₂ : Arena} {slot : ℕ} {rest : List ℕ} {m n : ℕ}
    (h₁ : Released arena arena₁ [slot] m) (h₂ : Released arena₁ arena₂ rest n) :
    Released arena arena₂ (slot :: rest) (n + m) where
  memory := h₂.memory.trans h₁.memory
  map := h₂.map.trans h₁.map
  allocatedBytes := h₂.allocatedBytes.trans h₁.allocatedBytes
  liveAllocations := h₂.liveAllocations.trans h₁.liveAllocations
  base := h₂.base.trans h₁.base
  totalMemory := h₂.totalMemory.trans h₁.totalMemory
  has_iff j r := by
    rw [h₂.has_iff, h₁.has_iff, List.mem_singleton, List.mem_cons]
    tauto
  used := h₂.used.trans h₁.used
  count := by
    have := h₁.count
    have := h₂.count
    omega

theorem releaseSlots_cases
    (h : arena.Framed outside) (hfree : locks.IsFree .frames) (slots : List ℕ) :
    ∃ n arena', (releaseSlots slots).Yields locks arena (.ok n) arena' ∧
      arena'.Framed outside ∧ Released arena arena' slots n := by
  induction slots generalizing arena with
  | nil =>
      exact ⟨0, arena, yields_pure 0, h, .keep fun j r hj => absurd hj List.not_mem_nil⟩
  | cons slot rest ih =>
      obtain ⟨gone, arena₁, hslot, hframed₁, hreleased₁⟩ := releaseSlot_cases h hfree slot
      obtain ⟨n, arena₂, hrest, hframed₂, hreleased₂⟩ := ih hframed₁
      refine ⟨_, arena₂, hslot.bind (hrest.bind (yields_pure _)), hframed₂, ?_⟩
      have hboth := hreleased₁.trans hreleased₂
      cases gone
      · exact hboth
      · exact hboth

/-- A release takes exactly the regions without blocks off the table. -/
theorem releaseEmptyRegions_cases
    (h : arena.Framed outside) (hheap : locks.IsFree .heap) (hframes : locks.IsFree .frames) :
    ∃ n arena', releaseEmptyRegions.Yields locks arena (.ok n) arena' ∧
      arena'.Framed outside ∧
      Released arena arena' (List.range Parameters.maxHeapRegions) n := by
  have hinner : (locks.taking .heap).IsFree .frames :=
    Locks.isFree_taking hframes (by decide)
  obtain ⟨n, arena', hrun, hframed, hreleased⟩ :=
    releaseSlots_cases h hinner (List.range Parameters.maxHeapRegions)
  exact ⟨n, arena', hrun.withLock hheap, hframed, hreleased⟩

/-! ## A heap that goes away -/

/-- An arena after some slots of a heap that goes away have been emptied: the
frames of regions with blocks are held by nobody the heap knows. -/
structure Dropped (arena arena' : Arena) (slots : List ℕ) (outside outside' : Finset ℕ) :
    Prop where
  memory : arena'.memory = arena.memory
  map : arena'.heap.map = arena.heap.map
  base : arena'.frames.base = arena.frames.base
  totalMemory : arena'.frames.totalMemory = arena.frames.totalMemory
  has_iff : ∀ slot region, Has arena'.heap.regions slot region ↔
    Has arena.heap.regions slot region ∧ slot ∉ slots
  outside_iff : ∀ i, i ∈ outside' ↔ i ∈ outside ∨ ∃ slot region, slot ∈ slots ∧
    Has arena.heap.regions slot region ∧ region.used ≠ 0 ∧ i ∈ region.frameRun arena.frames

theorem Dropped.keep
    {slots : List ℕ} (hnone : ∀ slot region, slot ∈ slots → ¬ Has arena.heap.regions slot region) :
    Dropped arena arena slots outside outside where
  memory := rfl
  map := rfl
  base := rfl
  totalMemory := rfl
  has_iff slot region := ⟨fun hhas => ⟨hhas, fun hslot => hnone slot region hslot hhas⟩, And.left⟩
  outside_iff i := by
    refine ⟨Or.inl, ?_⟩
    rintro (hi | ⟨slot, region, hslot, hhas, -⟩)
    · exact hi
    · exact absurd hhas (hnone slot region hslot)

theorem dropSlot_cases
    (h : arena.Framed outside) (hfree : locks.IsFree .frames) (slot : ℕ) :
    ∃ arena' outside', (dropSlot slot).Yields locks arena (.ok ()) arena' ∧
      arena'.Framed outside' ∧ Dropped arena arena' [slot] outside outside' := by
  have hslot := yields_region? arena locks slot
  cases hregion : arena.heap.region? slot with
  | none =>
      rw [hregion] at hslot
      refine ⟨arena, outside, hslot.bind (yields_pure ()), h, .keep fun j r hj hr => ?_⟩
      rw [List.mem_singleton.1 hj] at hr
      rw [region?_eq_some_iff.2 hr] at hregion
      cases hregion
  | some region =>
      rw [hregion] at hslot
      have hhas := region?_eq_some_iff.1 hregion
      let emptied : Arena := { arena with heap := arena.heap.setSlot slot none }
      have hhas_iff (j : ℕ) (r : Region) : Has (arena.heap.regions.set slot none) j r ↔
          Has arena.heap.regions j r ∧ j ∉ [slot] := by
        rw [has_set_none_iff, List.mem_singleton]
      -- the slot stands for its one region
      have hslot_iff (i : ℕ) : (∃ j r, j ∈ [slot] ∧ Has arena.heap.regions j r ∧ r.used ≠ 0 ∧
          i ∈ r.frameRun arena.frames) ↔ region.used ≠ 0 ∧ i ∈ region.frameRun arena.frames := by
        constructor
        · rintro ⟨j, r, hj, hr, hi⟩
          rw [List.mem_singleton.1 hj] at hr
          cases hhas.unique hr
          exact hi
        · exact fun hi => ⟨slot, region, List.mem_singleton_self slot, hhas, hi⟩
      by_cases hused : region.used = 0
      · have hreturnable := h.returnable hhas
        let returned : Arena := { emptied with
          frames := arena.frames.returning _ _ hreturnable.inside }
        refine ⟨returned, outside, ?_, h.returnRegion hhas rfl rfl rfl,
          ⟨rfl, rfl, rfl, rfl, hhas_iff, fun i => ?_⟩⟩
        · refine hslot.bind ((yields_update _).bind ?_)
          rw [if_neg (not_not.2 hused)]
          have hgiven : (FramePool.giveBack region.base region.frames).Yields locks
              emptied.frames (.ok ()) returned.frames :=
            FramePool.giveBack_of_returnable hfree hreturnable
          exact (within_framesPart hgiven).outcome_ok.bind (yields_pure ())
        · rw [hslot_iff]
          exact (or_iff_left fun hi => hi.1 hused).symm
      · have hbytes := (h.valid slot region hhas).mul_used
        refine ⟨emptied, outside ∪ region.frameRun arena.frames, ?_,
          h.abandonRegion hhas rfl rfl rfl, ⟨rfl, rfl, rfl, rfl, hhas_iff, fun i => ?_⟩⟩
        · refine hslot.bind ((yields_update _).bind ?_)
          rw [if_pos hused]
          exact (yields_ofResult_of_eq hbytes).bind (yields_report _)
        · rw [hslot_iff, mem_union, and_iff_right hused]

theorem dropSlots_cases
    (h : arena.Framed outside) (hfree : locks.IsFree .frames) (slots : List ℕ) :
    ∃ arena' outside', (dropSlots slots).Yields locks arena (.ok ()) arena' ∧
      arena'.Framed outside' ∧ Dropped arena arena' slots outside outside' := by
  induction slots generalizing arena outside with
  | nil =>
      exact ⟨arena, outside, yields_pure (), h, .keep fun j r hj => absurd hj List.not_mem_nil⟩
  | cons slot rest ih =>
      obtain ⟨arena₁, outside₁, hslot, hframed₁, hdropped₁⟩ := dropSlot_cases h hfree slot
      obtain ⟨arena₂, outside₂, hrest, hframed₂, hdropped₂⟩ := ih hframed₁
      refine ⟨arena₂, outside₂, hslot.bind hrest, hframed₂,
        ⟨hdropped₂.memory.trans hdropped₁.memory, hdropped₂.map.trans hdropped₁.map,
          hdropped₂.base.trans hdropped₁.base,
          hdropped₂.totalMemory.trans hdropped₁.totalMemory, fun j r => ?_, fun i => ?_⟩⟩
      · rw [hdropped₂.has_iff, hdropped₁.has_iff, List.mem_singleton, List.mem_cons]
        tauto
      · have hrun (r : Region) : r.frameRun arena₁.frames = r.frameRun arena.frames :=
          Region.frameRun_of_base hdropped₁.base
        simp only [hdropped₂.outside_iff, hdropped₁.outside_iff, hdropped₁.has_iff, hrun,
          List.mem_cons, List.not_mem_nil, or_false]
        constructor
        · rintro ((hi | ⟨j, r, hj, hrest⟩) | ⟨j, r, hj, ⟨hr, -⟩, hrest⟩)
          · exact Or.inl hi
          · exact Or.inr ⟨j, r, Or.inl hj, hrest⟩
          · exact Or.inr ⟨j, r, Or.inr hj, hr, hrest⟩
        · rintro (hi | ⟨j, r, hj, hr, hrest⟩)
          · exact Or.inl (Or.inl hi)
          · by_cases hslot : j = slot
            · exact Or.inl (Or.inr ⟨j, r, hslot, hr, hrest⟩)
            · exact Or.inr ⟨j, r, hj.resolve_left hslot, ⟨hr, hslot⟩, hrest⟩

/-- A heap that goes away leaves no region, and leaves leased the frames of
those that held blocks. -/
theorem teardown_cases (h : arena.Framed outside) (hfree : locks.IsFree .frames) :
    ∃ arena' outside', teardown.Yields locks arena (.ok ()) arena' ∧
      arena'.Framed outside' ∧
      Dropped arena arena' (List.range Parameters.maxHeapRegions) outside outside' :=
  dropSlots_cases h hfree _

end KernelMemory.Arena
