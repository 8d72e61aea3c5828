import Mathlib.Algebra.Order.BigOperators.Group.Finset
import KernelMemory.Proofs.Heap.Recording
import KernelMemory.Proofs.Heap.Usage

/-!
# Counting units

How many units the maps mark, in an arena whose maps describe a ledger.  The
blocks of a region are disjoint runs of its units, so the used units are the
reserved ones and the sizes of the blocks, and the heads are as many as the
blocks.  From this follows that a region is never passed over although it has
room: a free run of a region is always within what it is known to have free.
-/

namespace KernelMemory

open Finset RegionTable

namespace Region

variable (region : Region)

/-- The units that the maps mark as used. -/
def usedUnits (m : Memory) : Finset ℕ := {i ∈ range region.units | region.usedAt m i = true}

/-- The units that the maps mark as the first of a block. -/
def headUnits (m : Memory) : Finset ℕ := {i ∈ range region.units | region.headAt m i = true}

def unitIndex (b : Block) : ℕ := (b.start - region.start) / 16

def unitRun (b : Block) : Finset ℕ := Ico (region.unitIndex b) (region.unitIndex b + b.units)

variable {region}

theorem mem_usedUnits {m : Memory} {i : ℕ} :
    i ∈ region.usedUnits m ↔ i < region.units ∧ region.usedAt m i = true := by
  simp [usedUnits]

theorem mem_headUnits {m : Memory} {i : ℕ} :
    i ∈ region.headUnits m ↔ i < region.units ∧ region.headAt m i = true := by
  simp [headUnits]

theorem unitIndex_eq {b : Block} {first : ℕ} (h : b.start = region.unitStart first) :
    region.unitIndex b = first := by
  rw [unitIndex, h, unitStart]
  omega

theorem covers_iff_mem_unitRun {b : Block} {first : ℕ} (h : b.start = region.unitStart first)
    (i : ℕ) : b.Covers (region.unitStart i) ↔ i ∈ region.unitRun b := by
  rw [unitRun, unitIndex_eq h, mem_Ico, Block.Covers, Block.stop, h]
  simp only [unitStart]
  omega

end Region

namespace Arena.Recorded

variable {arena : Arena} {outside : Finset ℕ} {ledger : Finset Block} {slot : ℕ} {region : Region}
variable (h : arena.Recorded ledger) (hframed : arena.Framed outside)
variable (hhas : Has arena.heap.regions slot region)

include h hframed hhas

theorem exists_unit_of_mem
    {b : Block} (hb : b ∈ region.blocksOf ledger) :
    ∃ first, b.start = region.unitStart first ∧ region.reserved ≤ first ∧
      first + b.units ≤ region.units :=
  (Region.mem_blocksOf.1 hb).2.exists_unit (hframed.valid slot region hhas).toAddressable
    (h.aligned b (Region.mem_blocksOf.1 hb).1)

theorem exists_of_head
    {i : ℕ} (hi : i ∈ region.headUnits arena.memory) :
    ∃ b ∈ region.blocksOf ledger, b.start = region.unitStart i := by
  obtain ⟨hlt, hhead⟩ := Region.mem_headUnits.1 hi
  obtain ⟨b, hb, hstart⟩ := ((h.mapped slot region hhas).head i hlt).1 hhead
  have hcovers := Block.covers_of_start (h.units_pos b hb) hstart
  exact ⟨b, Region.mem_blocksOf.2 ⟨hb, h.holds_of_covers hframed hhas hb hlt hcovers⟩, hstart⟩

theorem usedUnits_eq :
    region.usedUnits arena.memory =
      range region.reserved ∪ (region.blocksOf ledger).biUnion region.unitRun := by
  have hmapped := h.mapped slot region hhas
  have hreserved := region.reserved_lt_units (hframed.valid slot region hhas).frames_pos
  ext i
  rw [Region.mem_usedUnits, mem_union, mem_range, mem_biUnion]
  constructor
  · rintro ⟨hi, hused⟩
    refine ((hmapped.used i hi).1 hused).imp_right ?_
    rintro ⟨b, hb, hcovers⟩
    have hmem := Region.mem_blocksOf.2 ⟨hb, h.holds_of_covers hframed hhas hb hi hcovers⟩
    obtain ⟨first, hstart, -, -⟩ := h.exists_unit_of_mem hframed hhas hmem
    exact ⟨b, hmem, (Region.covers_iff_mem_unitRun hstart i).1 hcovers⟩
  · rintro (hi | ⟨b, hb, hi⟩)
    · exact ⟨by omega, (hmapped.used i (by omega)).2 (Or.inl hi)⟩
    · obtain ⟨first, hstart, -, hinside⟩ := h.exists_unit_of_mem hframed hhas hb
      have hcovers := (Region.covers_iff_mem_unitRun hstart i).2 hi
      rw [Region.unitRun, Region.unitIndex_eq hstart, mem_Ico] at hi
      refine ⟨by omega, (hmapped.used i (by omega)).2 (Or.inr ?_)⟩
      exact ⟨b, (Region.mem_blocksOf.1 hb).1, hcovers⟩

/-- As many units are used as are reserved or held. -/
theorem card_usedUnits :
    (region.usedUnits arena.memory).card = region.reserved + region.used := by
  have hapart : Disjoint (range region.reserved)
      ((region.blocksOf ledger).biUnion region.unitRun) := by
    rw [disjoint_left]
    intro i hi hblock
    obtain ⟨b, hb, hi'⟩ := mem_biUnion.1 hblock
    obtain ⟨first, hstart, hlow, -⟩ := h.exists_unit_of_mem hframed hhas hb
    rw [Region.unitRun, Region.unitIndex_eq hstart, mem_Ico] at hi'
    rw [mem_range] at hi
    omega
  have hpairwise : ((region.blocksOf ledger : Finset Block) : Set Block).PairwiseDisjoint
      region.unitRun := by
    intro b hb c hc hne
    rw [Function.onFun, disjoint_left]
    intro i hib hic
    obtain ⟨first, hstart, -, -⟩ := h.exists_unit_of_mem hframed hhas hb
    obtain ⟨first', hstart', -, -⟩ := h.exists_unit_of_mem hframed hhas hc
    exact hne (h.eq_of_covers (Region.mem_blocksOf.1 hb).1 (Region.mem_blocksOf.1 hc).1
      ((Region.covers_iff_mem_unitRun hstart i).2 hib)
      ((Region.covers_iff_mem_unitRun hstart' i).2 hic))
  have hsizes : ∑ b ∈ region.blocksOf ledger, (region.unitRun b).card = region.used := by
    rw [h.used slot region hhas, Region.unitsHeld]
    refine sum_congr rfl fun b _ => ?_
    rw [Region.unitRun, Nat.card_Ico, Nat.add_sub_cancel_left]
  rw [h.usedUnits_eq hframed hhas, card_union_of_disjoint hapart, card_range,
    card_biUnion hpairwise, hsizes]

/-- A free run is within what the region is known to have free. -/
theorem room_of_fits
    {units align t : ℕ} (hfits : region.Fits arena.memory units align t) :
    region.reserved + region.used + units ≤ region.units := by
  have hapart : Disjoint (region.usedUnits arena.memory) (Ico t (t + units)) := by
    rw [disjoint_left]
    intro i hi hrun
    rw [mem_Ico] at hrun
    have hused := (Region.mem_usedUnits.1 hi).2
    rw [hfits.clear i hrun.1 hrun.2] at hused
    cases hused
  have hsubset : region.usedUnits arena.memory ∪ Ico t (t + units) ⊆ range region.units := by
    intro i hi
    rw [mem_range]
    rcases mem_union.1 hi with hi | hi
    · exact (Region.mem_usedUnits.1 hi).1
    · rw [mem_Ico] at hi
      have hinside := hfits.inside
      omega
  have hcard := card_le_card hsubset
  rw [card_union_of_disjoint hapart, h.card_usedUnits hframed hhas, Nat.card_Ico,
    card_range] at hcard
  omega

theorem headUnits_subset :
    region.headUnits arena.memory ⊆ region.usedUnits arena.memory ∧
      ∀ i ∈ region.headUnits arena.memory, region.reserved ≤ i := by
  constructor
  · intro i hi
    have hlt := (Region.mem_headUnits.1 hi).1
    obtain ⟨b, hb, hstart⟩ := h.exists_of_head hframed hhas hi
    have hledger := (Region.mem_blocksOf.1 hb).1
    have hcovers := Block.covers_of_start (h.units_pos b hledger) hstart
    exact Region.mem_usedUnits.2
      ⟨hlt, ((h.mapped slot region hhas).used i hlt).2 (Or.inr ⟨b, hledger, hcovers⟩)⟩
  · intro i hi
    obtain ⟨b, hb, hstart⟩ := h.exists_of_head hframed hhas hi
    obtain ⟨first, hfirst, hlow, -⟩ := h.exists_unit_of_mem hframed hhas hb
    rw [hstart, Region.unitStart, Region.unitStart] at hfirst
    omega

/-- A region has as many heads as blocks. -/
theorem card_headUnits :
    (region.headUnits arena.memory).card = (region.blocksOf ledger).card := by
  symm
  refine card_bij (fun b _ => region.unitIndex b) ?_ ?_ ?_
  · intro b hb
    obtain ⟨first, hstart, -, hinside⟩ := h.exists_unit_of_mem hframed hhas hb
    have hledger := (Region.mem_blocksOf.1 hb).1
    have hpos := h.units_pos b hledger
    rw [Region.unitIndex_eq hstart]
    exact Region.mem_headUnits.2 ⟨by omega,
      ((h.mapped slot region hhas).head first (by omega)).2 ⟨b, hledger, hstart⟩⟩
  · intro b hb c hc heq
    obtain ⟨first, hstart, -, -⟩ := h.exists_unit_of_mem hframed hhas hb
    obtain ⟨first', hstart', -, -⟩ := h.exists_unit_of_mem hframed hhas hc
    rw [Region.unitIndex_eq hstart, Region.unitIndex_eq hstart'] at heq
    subst heq
    exact h.eq_of_start (Region.mem_blocksOf.1 hb).1 (Region.mem_blocksOf.1 hc).1
      (hstart.trans hstart'.symm)
  · intro i hi
    obtain ⟨b, hb, hstart⟩ := h.exists_of_head hframed hhas hi
    exact ⟨b, hb, Region.unitIndex_eq hstart⟩

omit hhas in
/-- The blocks of a ledger are those of the regions. -/
theorem sum_ledger (weight : Block → ℕ) :
    ∑ b ∈ ledger, weight b =
      total (fun region => ∑ b ∈ region.blocksOf ledger, weight b) arena.heap.regions := by
  have hapart (i j : ℕ) (a b : Region) (ha : Has arena.heap.regions i a)
      (hb : Has arena.heap.regions j b) (hne : i ≠ j) :
      Disjoint (a.blocksOf ledger) (b.blocksOf ledger) := by
    rw [disjoint_left]
    intro c hca hcb
    obtain ⟨hc, hholds⟩ := Region.mem_blocksOf.1 hca
    exact hne (hframed.slot_eq_of_holds ha hb (h.units_pos c hc) hholds
      (Region.mem_blocksOf.1 hcb).2)
  have hall (b : Block) : b ∈ ledger ↔ b ∈ (∅ : Finset Block) ∨
      ∃ slot region, Has arena.heap.regions slot region ∧ b ∈ region.blocksOf ledger := by
    constructor
    · intro hb
      obtain ⟨slot, region, hhas, hholds⟩ := h.held b hb
      exact Or.inr ⟨slot, region, hhas, Region.mem_blocksOf.2 ⟨hb, hholds⟩⟩
    · rintro (hb | ⟨slot, region, -, hb⟩)
      · exact absurd hb (notMem_empty b)
      · exact (Region.mem_blocksOf.1 hb).1
  have hsum := sum_eq_total (fun region => region.blocksOf ledger) weight ∅ hapart
    (fun _ _ _ => disjoint_empty_left _) hall
  rw [hsum, sum_empty, Nat.zero_add]

omit hhas in
/-- The records of the regions and the ledger have the same units. -/
theorem total_used : total Region.used arena.heap.regions = ∑ b ∈ ledger, b.units := by
  rw [h.sum_ledger hframed Block.units]
  exact total_congr h.used

omit hhas in
/-- The blocks of a ledger are no more than its units, which fit in memory. -/
theorem units_lt :
    ledger.card ≤ ∑ b ∈ ledger, b.units ∧ 16 * ∑ b ∈ ledger, b.units < UInt64.size := by
  have hsize : UInt64.size = 18446744073709551616 := rfl
  have hused := hframed.total_used_le
  have hframes := hframed.total_frames_le
  have hunits := hframed.sound.units_lt
  rw [hframed.sound.units] at hunits
  rw [h.total_used hframed] at hused
  refine ⟨?_, by omega⟩
  rw [card_eq_sum_ones]
  exact sum_le_sum h.units_pos

end Arena.Recorded

end KernelMemory
