import KernelMemory.Proofs.World.RoundTrip

/-!
# The order of frees

Freeing changes the maps, the records and the counters of a heap, and all of
these describe the ledger.  So two heaps on the same leases with the same ledger
are alike however they came about (`Akin.alike`), and it is enough that a list
of frees takes the same blocks off the ledger in every order.  The main
statement is `Reachable.frees_commute`.
-/

namespace KernelMemory

open Arena Finset Program RegionTable

namespace Heap

variable {heap heap' : Heap} {slot : ℕ} {region : Region}

/-- Heaps with the same leases have the same regions, up to what they hold. -/
theorem exists_has_of_leases_eq
    (h : heap'.leases = heap.leases) (hhas : Has heap.regions slot region) :
    ∃ used, Has heap'.regions slot { region with used } := by
  have hlease := leases_getElem?_of_has hhas
  rw [← h, leases, List.getElem?_map, Option.map_eq_some_iff] at hlease
  obtain ⟨content, hcontent, hsome⟩ := hlease
  obtain ⟨⟨base, frames, used⟩, rfl, hpair⟩ := Option.map_eq_some_iff.1 hsome
  cases hpair
  exact ⟨used, hcontent⟩

end Heap

namespace Arena

variable {arena arena' arena'' : Arena} {ledger : Finset Block} {outside : Finset ℕ}

def InSomeMaps (arena : Arena) (qa : PhysAddr) : Prop :=
  ∃ slot region, Has arena.heap.regions slot region ∧ region.InMaps qa

/-- Two arenas whose heaps are on the same leases, and that have the same bytes
outside the maps. -/
structure Akin (arena arena' : Arena) : Prop where
  map : arena'.heap.map = arena.heap.map
  leases : arena'.heap.leases = arena.heap.leases
  frames : arena'.frames = arena.frames
  bytes : ∀ qa, ¬ arena.InSomeMaps qa → arena'.memory.get qa = arena.memory.get qa

theorem inSomeMaps_of_leases_eq
    (h : arena'.heap.leases = arena.heap.leases) {qa : PhysAddr} (hqa : arena.InSomeMaps qa) :
    arena'.InSomeMaps qa := by
  obtain ⟨slot, region, hhas, hin⟩ := hqa
  obtain ⟨used, hhas'⟩ := Heap.exists_has_of_leases_eq h hhas
  exact ⟨slot, _, hhas', hin⟩

namespace Akin

theorem refl (arena : Arena) : arena.Akin arena := ⟨rfl, rfl, rfl, fun _ _ => rfl⟩

theorem symm (h : arena.Akin arena') : arena'.Akin arena where
  map := h.map.symm
  leases := h.leases.symm
  frames := h.frames.symm
  bytes qa hqa := (h.bytes qa fun hin => hqa (inSomeMaps_of_leases_eq h.leases hin)).symm

theorem trans (h : arena.Akin arena') (h' : arena'.Akin arena'') : arena.Akin arena'' where
  map := h'.map.trans h.map
  leases := h'.leases.trans h.leases
  frames := h'.frames.trans h.frames
  bytes qa hqa :=
    (h'.bytes qa fun hin => hqa (inSomeMaps_of_leases_eq h.leases.symm hin)).trans (h.bytes qa hqa)

/-- Where the ledger is the same, so are the records of the regions. -/
theorem has_of_has
    (h : arena.Akin arena') (hrecorded : arena.Recorded ledger)
    (hrecorded' : arena'.Recorded ledger)
    {slot : ℕ} {region : Region} (hhas : Has arena.heap.regions slot region) :
    Has arena'.heap.regions slot region := by
  obtain ⟨used, hhas'⟩ := Heap.exists_has_of_leases_eq h.leases hhas
  have hused : used = region.unitsHeld ledger := hrecorded'.used slot _ hhas'
  rw [← hrecorded.used slot region hhas] at hused
  subst hused
  exact hhas'

/-- Arenas on the same leases are alike if their maps, records and counters
describe the same ledger. -/
theorem alike
    (h : arena.Akin arena') (hframed : arena.Framed outside) (hrecorded : arena.Recorded ledger)
    (hrecorded' : arena'.Recorded ledger) : arena.Alike arena' := by
  refine ⟨?_, h.frames, fun qa => ?_⟩
  · have hlength : arena'.heap.regions.length = arena.heap.regions.length := by
      have hleases := congrArg List.length h.leases
      rwa [Heap.leases, Heap.leases, List.length_map, List.length_map] at hleases
    have hregions : arena'.heap.regions = arena.heap.regions :=
      eq_of_has_iff hlength fun slot region =>
        ⟨h.symm.has_of_has hrecorded' hrecorded, h.has_of_has hrecorded hrecorded'⟩
    have hbytes := hrecorded'.bytes.trans hrecorded.bytes.symm
    have hlive := hrecorded'.live.trans hrecorded.live.symm
    calc
      arena'.heap = ⟨arena'.heap.map, arena'.heap.regions, ⟨arena'.heap.allocatedBytes.value⟩,
          ⟨arena'.heap.liveAllocations.value⟩⟩ := rfl
      _ = arena.heap := by rw [h.map, hregions, hbytes, hlive]
  · by_cases hqa : arena.InSomeMaps qa
    · obtain ⟨slot, region, hhas, hin⟩ := hqa
      have hmapped := hrecorded.mapped slot region hhas
      have hmapped' := hrecorded'.mapped slot region (h.has_of_has hrecorded hrecorded' hhas)
      refine (hframed.valid slot region hhas).toAddressable.get_eq_of_inMaps ?_ ?_ hin
      · intro i hi
        rw [Bool.eq_iff_iff, hmapped'.used i hi, hmapped.used i hi]
      · intro i hi
        rw [Bool.eq_iff_iff, hmapped'.head i hi, hmapped.head i hi]
    · exact h.bytes qa hqa

end Akin

/-- A free leaves the leases and every byte outside the maps. -/
theorem Clears.akin
    {b : Block} {slot first : ℕ} {region : Region}
    (h : arena.Clears arena' b slot region first) : arena.Akin arena' where
  map := by
    rw [h.heap]
    rfl
  leases := by
    rw [h.heap]
    exact Heap.leases_setSlot_of_has h.has rfl rfl
  frames := h.frames
  bytes qa hqa := h.removal.maps.kept qa fun hin => hqa ⟨slot, region, h.has, hin⟩

/-- Frees blocks one after the other; the first refusal ends it. -/
def freeAll (pas : List PhysAddr) : Program LockName Arena Unit := pas.forM free

end Arena

namespace World

variable {w : World} {pas : List PhysAddr}

/-- Frees live blocks, all of them at different addresses: every free succeeds,
and takes its block off the ledger. -/
theorem Reachable.exists_freeAll
    (h : Reachable Rules.tidy w) (hnodup : pas.Nodup)
    (hlive : ∀ pa ∈ pas, ∃ b ∈ w.ledger, b.address = pa) :
    ∃ w' : World, Reachable Rules.tidy w' ∧
      (freeAll pas).run w.machine = some (.ok (), w'.machine) ∧
      w'.machine.locks = w.machine.locks ∧
      w'.ledger = w.ledger.filter (·.address ∉ pas) ∧ w.arena.Akin w'.arena := by
  induction pas generalizing w with
  | nil =>
      refine ⟨w, h, rfl, rfl, ?_, .refl _⟩
      simp
  | cons pa pas ih =>
      obtain ⟨hpa, hnodup₁⟩ := List.nodup_cons.1 hnodup
      obtain ⟨b, hb, rfl⟩ := hlive pa List.mem_cons_self
      obtain ⟨machine, slot, region, first, hfree, hclears⟩ :=
        h.tracked.exists_clears h.orderly hb
      have hpermits : w.Permits (.free b.address) := trivial
      obtain ⟨hlocks, -⟩ := h.orderly.called_change hpermits hfree
      have h₁ : Reachable Rules.tidy (w.called (.free b.address) (.ok ()) machine) :=
        h.step (.call hpermits hfree)
      have hledger₁ : (w.called (.free b.address) (.ok ()) machine).ledger =
          w.ledger.filter (·.address ≠ b.address) := rfl
      have hlive₁ : ∀ pa ∈ pas,
          ∃ c ∈ (w.called (.free b.address) (.ok ()) machine).ledger, c.address = pa := by
        intro pa hmem
        obtain ⟨c, hc, rfl⟩ := hlive pa (List.mem_cons_of_mem _ hmem)
        rw [hledger₁]
        refine ⟨c, mem_filter.2 ⟨hc, ?_⟩, rfl⟩
        intro heq
        exact hpa (heq ▸ hmem)
      obtain ⟨w', h', hrun, hlocks', hledger', hakin⟩ := ih h₁ hnodup₁ hlive₁
      refine ⟨w', h', ?_, hlocks'.trans hlocks, ?_, hclears.akin.trans hakin⟩
      · change ((free b.address).bind fun _ => freeAll pas).run w.machine = _
        rw [run_bind, hfree]
        exact hrun
      · rw [hledger', hledger₁, filter_filter]
        refine filter_congr fun c _ => ?_
        rw [List.mem_cons, not_or]

/-- In every reachable world, live blocks can be freed in any order: all frees
succeed, and there is one state of the heap, of its frames and of every byte of
memory in which all orders end. -/
theorem Reachable.frees_commute
    (h : Reachable Rules.tidy w) (hnodup : pas.Nodup)
    (hlive : ∀ pa ∈ pas, ∃ b ∈ w.ledger, b.address = pa) :
    ∃ final : World, Reachable Rules.tidy final ∧
      final.ledger = w.ledger.filter (·.address ∉ pas) ∧
      ∀ order : List PhysAddr, order.Perm pas →
        ∃ machine, (freeAll order).run w.machine = some (.ok (), machine) ∧
          machine.locks = w.machine.locks ∧ final.arena.Alike machine.state := by
  obtain ⟨final, hfinal, -, -, hledger, hakin⟩ := h.exists_freeAll hnodup hlive
  refine ⟨final, hfinal, hledger, fun order horder => ?_⟩
  have hlive' : ∀ pa ∈ order, ∃ b ∈ w.ledger, b.address = pa := by
    intro pa hpa
    exact hlive pa (horder.mem_iff.1 hpa)
  obtain ⟨w', h', hrun, hlocks, hledger', hakin'⟩ :=
    h.exists_freeAll (horder.nodup_iff.2 hnodup) hlive'
  have hsame : w'.ledger = final.ledger := by
    rw [hledger', hledger]
    refine filter_congr fun b _ => ?_
    rw [horder.mem_iff]
  refine ⟨w'.machine, hrun, hlocks, ?_⟩
  exact (hakin.symm.trans hakin').alike hfinal.orderly.framed hfinal.tracked.recorded
    (hsame ▸ h'.tracked.recorded)

theorem exists_two_blocks :
    ∃ (w : World) (pa : PhysAddr), Reachable Rules.tidy w ∧
      w.ledger = {⟨pa, 2⟩, ⟨⟨0x100400⟩, 7⟩} ∧ pa ≠ ⟨0x100400⟩ := by
  obtain ⟨w, slot, region, hw, hledger, hhas, hfits⟩ := exists_run_behind_block
  have hsize : (32 : UInt64) ≠ 0 := by decide
  have hpow : (64 : UInt64).toNat.isPowerOfTwo := ⟨6, rfl⟩
  have hle : (64 : UInt64).toNat ≤ 4096 := by decide
  obtain ⟨result, machine, hrun, hallocates⟩ := hw.orderly.exists_allocates hsize hpow hle
  have hfirst := hw.tracked.firstFit_of_allocates hw.orderly
    (request_of_layout hsize hpow hle) hallocates
  obtain ⟨pa, rfl⟩ : ∃ pa, result = .ok pa := by
    generalize machine.state = arena' at hfirst
    cases hfirst with
    | existing => exact ⟨_, rfl⟩
    | grown => exact ⟨_, rfl⟩
    | refused full stuck => exact absurd hfits (full slot region hhas 72)
  have h' : Reachable Rules.tidy (w.called (.allocAligned 32 64) (.ok pa) machine) :=
    hw.step (.call trivial hrun)
  have hledger' : (w.called (.allocAligned 32 64) (.ok pa) machine).ledger =
      {⟨pa, 2⟩, ⟨⟨0x100400⟩, 7⟩} := by
    change insert _ w.ledger = _
    rw [hledger]
    rfl
  refine ⟨_, pa, h', hledger', ?_⟩
  rintro rfl
  have hsame := h'.tracked.recorded.eq_of_start (b := ⟨⟨0x100400⟩, 2⟩) (c := ⟨⟨0x100400⟩, 7⟩)
    (by rw [hledger']; decide) (by rw [hledger']; decide) rfl
  exact absurd hsame (by decide)

/-- Two blocks freed one way and the other. -/
theorem exists_freed_both_ways :
    ∃ (w : World) (pa qa : PhysAddr) (m m' : Machine LockName Arena), Reachable Rules.tidy w ∧
      w.ledger = {⟨pa, 2⟩, ⟨qa, 7⟩} ∧ pa ≠ qa ∧
      (freeAll [pa, qa]).run w.machine = some (.ok (), m) ∧
      (freeAll [qa, pa]).run w.machine = some (.ok (), m') ∧ m.state.Alike m'.state := by
  obtain ⟨w, pa, hw, hledger, hne⟩ := exists_two_blocks
  have hnodup : [pa, ⟨0x100400⟩].Nodup := by
    simp [hne]
  have hlive : ∀ address ∈ [pa, ⟨0x100400⟩], ∃ b ∈ w.ledger, b.address = address := by
    rw [hledger]
    intro address haddress
    obtain rfl | rfl := List.mem_pair.1 haddress
    · exact ⟨⟨_, 2⟩, mem_insert_self _ _, rfl⟩
    · exact ⟨⟨_, 7⟩, mem_insert_of_mem (mem_singleton_self _), rfl⟩
  obtain ⟨final, -, -, hfinal⟩ := hw.frees_commute hnodup hlive
  obtain ⟨m, hrun, -, halike⟩ := hfinal [pa, ⟨0x100400⟩] (.refl _)
  obtain ⟨m', hrun', -, halike'⟩ := hfinal [⟨0x100400⟩, pa] (.swap _ _ _)
  exact ⟨w, pa, _, m, m', hw, hledger, hne, hrun, hrun', halike.symm.trans halike'⟩

end World

end KernelMemory
