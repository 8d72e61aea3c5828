import KernelMemory.Proofs.World.Boot

/-!
# Blocks and their addresses

The heap keeps no record of a block besides the marks in its maps, and clients
may hand any address to a free.  The main statement `Reachable.ledger_exact`
says that the marks are enough: the blocks of the ledger lie apart, each behind
the maps of a single region, and a free succeeds for their addresses and for no
other.
-/

namespace KernelMemory

open Arena RegionTable

namespace World

variable {w : World}

/-- A free delivers: it removes the block at the address, or there is none and
the free is refused. -/
theorem Tracked.free_cases
    (ht : w.Tracked) (hw : w.Orderly) (pa : PhysAddr) :
    ∃ result arena', (free pa).Yields w.machine.locks w.arena result arena' ∧
      ((∃ b ∈ w.ledger, b.address = pa) ∧ result = .ok () ∨
        (¬ ∃ b ∈ w.ledger, b.address = pa) ∧ result = .refuse (.invalidFree pa) ∧
          arena' = w.arena) := by
  obtain ⟨result, arena', hfrees, hrun⟩ := Arena.free_cases hw.framed (hw.locks .heap) pa
  refine ⟨result, arena', hrun, ?_⟩
  cases hfrees with
  | freed has address removal held frames heap =>
      obtain ⟨b, hb, haddress, -⟩ := ht.recorded.freed hw.framed has address removal heap
      exact Or.inl ⟨⟨b, hb, haddress⟩, rfl⟩
  | overdrawn has address removal held =>
      have := ht.recorded.held_of_extent hw.framed has removal.extent
      omega
  | unknown none =>
      refine Or.inr ⟨?_, rfl, rfl⟩
      rintro ⟨b, hb, rfl⟩
      obtain ⟨slot, region, first, hhas, haddress, hlow, hlt, hhead⟩ :=
        ht.recorded.exists_head hw.framed hb
      rw [none slot region first hhas haddress hlow hlt] at hhead
      cases hhead

/-- A free where no block starts is refused and changes nothing. -/
theorem Reachable.exists_refused_free
    (h : Reachable Rules.tidy w) {pa : PhysAddr} (hnone : ∀ b ∈ w.ledger, b.address ≠ pa) :
    ∃ machine, (free pa).run w.machine = some (.refuse (.invalidFree pa), machine) ∧
      machine.state = w.arena := by
  obtain ⟨result, arena', hyields, ⟨⟨b, hb, haddress⟩, -⟩ | ⟨-, rfl, rfl⟩⟩ :=
    h.tracked.free_cases h.orderly pa
  · exact absurd haddress (hnone b hb)
  · obtain ⟨machine, hrun, -, hstate⟩ := hyields.exists_run
    exact ⟨machine, hrun, hstate⟩

/-- In every reachable world the blocks of the ledger lie apart, each in one
region behind its maps, and a free succeeds exactly for their addresses; any
other free is refused and changes nothing. -/
theorem Reachable.ledger_exact
    (h : Reachable Rules.tidy w) :
    (∀ b ∈ w.ledger, 0 < b.units) ∧
    (∀ b ∈ w.ledger, ∀ c ∈ w.ledger, b ≠ c → b.Apart c) ∧
    (∀ b ∈ w.ledger, ∃! slot, ∃ region, Has w.regions slot region ∧ region.Holds b) ∧
    ∀ pa, ∃ result machine, (free pa).run w.machine = some (result, machine) ∧
      (result = .ok () ↔ ∃ b ∈ w.ledger, b.address = pa) ∧
      (result ≠ .ok () → result = .refuse (.invalidFree pa) ∧ machine.state = w.arena) := by
  have hw := h.orderly
  have ht := h.tracked
  refine ⟨ht.recorded.units_pos, ht.recorded.apart, fun b hb => ?_, fun pa => ?_⟩
  · obtain ⟨slot, region, hhas, hholds⟩ := ht.recorded.held b hb
    refine ⟨slot, ⟨region, hhas, hholds⟩, ?_⟩
    rintro other ⟨region', hhas', hholds'⟩
    exact hw.framed.slot_eq_of_holds hhas' hhas (ht.recorded.units_pos b hb) hholds' hholds
  · obtain ⟨result, arena', hrun, hcases⟩ := ht.free_cases hw pa
    obtain ⟨machine, hmachine, -, hstate⟩ := hrun.exists_run
    refine ⟨result, machine, hmachine, ?_⟩
    rcases hcases with ⟨hlive, rfl⟩ | ⟨hnone, rfl, rfl⟩
    · exact ⟨iff_of_true rfl hlive, fun hne => absurd rfl hne⟩
    · exact ⟨iff_of_false (by simp [Result.refuse]) hnone, fun _ => ⟨rfl, hstate⟩⟩

/-- The first block of a heap is freed by its address, but not by that of its
second unit. -/
theorem exists_freed_by_address :
    ∃ w : World, Reachable Rules.tidy w ∧ w.ledger = {⟨⟨0x100400⟩, 7⟩} ∧
      (∃ machine, (free ⟨0x100400⟩).run w.machine = some (.ok (), machine)) ∧
      ∃ machine, (free ⟨0x100410⟩).run w.machine =
        some (.refuse (.invalidFree ⟨0x100410⟩), machine) ∧ machine.state = w.arena := by
  obtain ⟨w, hw, hledger⟩ := exists_reachable_block Rules.tidy
  obtain ⟨-, -, -, hfree⟩ := hw.ledger_exact
  refine ⟨w, hw, hledger, ?_, ?_⟩
  · obtain ⟨result, machine, hrun, hiff, -⟩ := hfree ⟨0x100400⟩
    have hmem : ⟨⟨0x100400⟩, 7⟩ ∈ w.ledger := by
      rw [hledger]
      exact Finset.mem_singleton_self _
    have hok : result = .ok () := hiff.2 ⟨_, hmem, rfl⟩
    exact ⟨machine, hok ▸ hrun⟩
  · obtain ⟨result, machine, hrun, hiff, hrefused⟩ := hfree ⟨0x100410⟩
    have hne : result ≠ .ok () := by
      intro hok
      obtain ⟨b, hb, haddress⟩ := hiff.1 hok
      rw [hledger, Finset.mem_singleton] at hb
      rw [hb] at haddress
      exact absurd haddress (by decide)
    obtain ⟨hresult, hstate⟩ := hrefused hne
    exact ⟨machine, hresult ▸ hrun, hstate⟩

end World

end KernelMemory
