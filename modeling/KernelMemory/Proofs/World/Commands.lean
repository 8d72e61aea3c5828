import KernelMemory.Proofs.World.Freeing
import KernelMemory.Proofs.World.Outline

/-!
# Commands to a heap and its pool

A command names addresses by their distance from the start of the pool, so that
one command can be given to two heaps whose pools lie apart.  The main statements
`follows` and `reports` say that a world that clients keep in order does with
each command what its plan does, and that what it reports can be read off the
plan.
-/

namespace KernelMemory

open Arena Finset Program RegionTable

/-- A failure as it looks from a base. -/
def Failure.seenFrom (base : PhysAddr) : Failure → Failure
  | .refused (.invalidFree pa) => .refused (.invalidFree (pa.seenFrom base))
  | failure => failure

/-- A result as it looks from a base, where a value is shown as a reply. -/
def Result.seenFrom {α : Type} (base : PhysAddr) (reply : α → Reply) : Result α → Result Reply
  | .ok a => .ok (reply a)
  | .error failure => .error (failure.seenFrom base)

namespace Command

/-- The call that gives a command to a heap whose pool starts at `base`. -/
def call (base : PhysAddr) : Command → Call
  | .allocAligned size align => .allocAligned size align
  | .alloc size => .alloc size
  | .free pa => .free (pa.shownAt base)
  | .releaseEmptyRegions => .releaseEmptyRegions
  | .leaseFrames count => .leaseFrames count
  | .giveBackFrames pa count => .giveBackFrames (pa.shownAt base) count
  | .reserveFrames pa count => .reserveFrames (pa.shownAt base) count

/-- What such a call answers, as it looks from `base`. -/
def view (base : PhysAddr) : (command : Command) → Result (command.call base).Answer → Result Reply
  | .allocAligned .. | .alloc _ | .leaseFrames _ =>
      Result.seenFrom base fun pa : PhysAddr => .address (pa.seenFrom base)
  | .releaseEmptyRegions => Result.seenFrom base fun n : ℕ => .number n
  | .free _ | .giveBackFrames .. | .reserveFrames .. =>
      Result.seenFrom base fun _ : Unit => .done

theorem view_error (base : PhysAddr) (command : Command) (failure : Failure) :
    command.view base (.error failure) = .error (failure.seenFrom base) := by
  cases command <;> rfl

end Command

namespace World

variable {w : World} {command : Command}

/-- A world that delivers on a command, and does with it what its plan does. -/
def Follows (w : World) (command : Command) : Prop :=
  ∃ result machine,
    (command.call w.frames.base).program.run w.machine = some (result, machine) ∧
      w.plan.perform command = (command.view w.frames.base result,
        (w.called (command.call w.frames.base) result machine).plan)

/-! ## Refusals -/

/-- A command that is refused follows a plan that refuses it for the same
reason. -/
theorem follows_of_error
    {failure : Failure}
    (hrun : (command.call w.frames.base).program.Yields w.machine.locks w.arena
      (.error failure) w.arena)
    (hplan : w.plan.perform command = (.error (failure.seenFrom w.frames.base), w.plan)) :
    w.Follows command := by
  obtain ⟨machine, hmachine, -, hstate⟩ := hrun.exists_run
  refine ⟨_, machine, hmachine, ?_⟩
  rw [hplan, Command.view_error, plan, plan, called, heldAfter_error, ← hstate]
  rfl

/-! ## Allocations -/

theorem follows_allocAligned
    (hw : w.Orderly) (ht : w.Tracked) (hkept : w.abandoned = ∅) (size align : UInt64) :
    w.Follows (.allocAligned size align) := by
  rcases allocAligned_cases hw.framed (hw.locks .heap) (hw.locks .frames) size align with
    ⟨hzero, hrun⟩ | ⟨hsize, hbad, hrun⟩ | ⟨hsize, hpow, hle, result, arena', hallocates, hrun⟩
  · refine follows_of_error hrun ?_
    change w.plan.allocAligned size align = _
    rw [Plan.allocAligned, if_pos hzero]
    rfl
  · refine follows_of_error hrun ?_
    change w.plan.allocAligned size align = _
    rw [Plan.allocAligned, if_neg hsize, if_neg hbad]
    rfl
  · have hfit := ht.firstFit_of_allocates hw (request_of_layout hsize hpow hle) hallocates
    have hperform : w.plan.perform (.allocAligned size align) =
        w.plan.allocate (ceilDiv size.toNat 16) (max (align.toNat / 16) 1) := by
      change w.plan.allocAligned size align = _
      rw [Plan.allocAligned, if_neg hsize, if_pos ⟨hpow, hle⟩]
    match result, hfit, hrun with
    | .ok pa, hfit, hrun =>
        obtain ⟨machine, hmachine, -, hstate⟩ := hrun.exists_run
        refine ⟨.ok pa, machine, hmachine, ?_⟩
        rw [hperform, allocate_of_firstFit hw ht hkept hfit, ← hstate]
        rfl
    | .error (.refused error), hfit, hrun =>
        obtain ⟨hplan, rfl⟩ := allocate_of_refused hw ht hkept hfit
        refine follows_of_error hrun ?_
        rw [hperform, hplan]
        cases hfit
        rfl

/-! ## Frees -/

theorem exists_plan_block_iff (pa : PhysAddr) :
    (∃ b ∈ w.plan.blocks, b.address = pa) ↔
      ∃ b ∈ w.ledger, b.address = pa.shownAt w.frames.base := by
  change (∃ b ∈ w.ledger.image (·.seenFrom w.frames.base), b.address = pa) ↔ _
  rw [exists_mem_image]
  exact exists_congr fun b => and_congr_right fun _ => Address.seenFrom_eq_iff

theorem filter_plan_blocks (pa : PhysAddr) :
    w.plan.blocks.filter (·.address ≠ pa) =
      (w.ledger.filter (·.address ≠ pa.shownAt w.frames.base)).image
        (·.seenFrom w.frames.base) := by
  change (w.ledger.image (·.seenFrom w.frames.base)).filter (·.address ≠ pa) = _
  rw [filter_image]
  refine congrArg (image _) (filter_congr fun c _ => ?_)
  exact not_congr Address.seenFrom_eq_iff

theorem follows_free (hw : w.Orderly) (ht : w.Tracked) (pa : PhysAddr) :
    w.Follows (.free pa) := by
  obtain ⟨result, arena', hrun, ⟨hlive, rfl⟩ | ⟨hnone, rfl, rfl⟩⟩ :=
    ht.free_cases hw (pa.shownAt w.frames.base)
  · obtain ⟨b, hb, haddress⟩ := hlive
    obtain ⟨machine, slot, region, first, hmachine, hclears⟩ := ht.exists_clears hw hb
    rw [haddress] at hmachine
    have hframes := hclears.frames
    have hleases : machine.state.heap.leases = w.heap.leases := by
      rw [hclears.heap]
      exact Heap.leases_setSlot_of_has hclears.has rfl rfl
    have hplan := plan_congr (w.ledger.filter (·.address ≠ pa.shownAt w.frames.base)) w.held
      (by rw [hframes]) (by rw [hframes]) hleases
    refine ⟨.ok (), machine, hmachine, ?_⟩
    change w.plan.free pa = _
    rw [Plan.free, if_pos ((exists_plan_block_iff pa).2 ⟨b, hb, haddress⟩), filter_plan_blocks]
    exact congrArg (Prod.mk _) hplan.symm
  · refine follows_of_error hrun ?_
    change w.plan.free pa = _
    rw [Plan.free, if_neg (mt (exists_plan_block_iff pa).1 hnone), Failure.seenFrom,
      Address.seenFrom_shownAt]

/-! ## Releases -/

theorem length_plan_vacant (hw : w.Orderly) (ht : w.Tracked) :
    (w.plan.leases.reduceOption.filter w.plan.vacant).length = w.vacant.length := by
  rw [plan_leases, List.reduceOption_map, List.filter_map, List.length_map, vacant]
  refine congrArg List.length (List.filter_congr fun region hregion => ?_)
  obtain ⟨slot, hhas⟩ := mem_reduceOption_iff.1 hregion
  exact plan_vacant hw ht hhas

theorem plan_occupied (hw : w.Orderly) (ht : w.Tracked) :
    w.plan.leases.map (Option.filter fun lease => !w.plan.vacant lease) =
      w.occupied.map (Option.map fun region => region.lease w.frames) := by
  rw [plan_leases, occupied, List.map_map, List.map_map]
  refine List.map_congr_left fun content hcontent => ?_
  cases content with
  | none => rfl
  | some region =>
      obtain ⟨slot, hhas⟩ := List.mem_iff_getElem?.1 hcontent
      have hvacant := plan_vacant hw ht hhas
      simp only [Function.comp_apply, Option.map_some, Option.filter, hvacant]
      split <;> rfl

theorem follows_releaseEmptyRegions (hw : w.Orderly) (ht : w.Tracked) :
    w.Follows .releaseEmptyRegions := by
  obtain ⟨n, arena', hrun, hframed, hreleased⟩ :=
    releaseEmptyRegions_cases hw.framed (hw.locks .heap) (hw.locks .frames)
  obtain ⟨machine, hmachine, -, rfl⟩ := hrun.exists_run
  obtain ⟨rfl, hvacated⟩ := ht.vacated_of_released hw hframed hreleased
  have hplan : machine.state.plan w.ledger w.held = { w.plan with
      leases := w.plan.leases.map (Option.filter fun lease => !w.plan.vacant lease) } := by
    refine Plan.ext ?_ ?_ ?_ rfl
    · exact congrArg FramePool.framesIn hvacated.totalMemory
    · rw [leases_plan, hvacated.heap, plan_occupied hw ht]
      refine List.map_congr_left fun content _ => congrArg (Option.map · content) ?_
      funext region
      rw [Region.lease, Region.lease, Region.firstFrame, Region.firstFrame, hvacated.base]
    · change w.ledger.image (·.seenFrom machine.state.frames.base) = _
      rw [hvacated.base]
      rfl
  refine ⟨.ok w.vacant.length, machine, hmachine, ?_⟩
  change w.plan.releaseEmptyRegions = _
  rw [Plan.releaseEmptyRegions, length_plan_vacant hw ht, ← hplan]
  rfl

/-! ## Frames -/

theorem follows_leaseFrames (hw : w.Orderly) (hkept : w.abandoned = ∅) (count : ℕ) :
    w.Follows (.leaseFrames count) := by
  by_cases hcount : count = 0
  · subst hcount
    exact follows_of_error (within_framesPart (FramePool.lease_zero (hw.locks .frames))) rfl
  rcases FramePool.lease_cases hw.framed.sound (hw.locks .frames) (Nat.pos_of_ne_zero hcount) with
    ⟨index, hleast, hinside, pa, hpa, hlease⟩ | ⟨hnone, hlease⟩
  · have hrun : (Call.program (.leaseFrames count)).Yields w.machine.locks w.arena (.ok pa)
        { w.arena with frames := w.frames.leasing index count hinside } :=
      within_framesPart hlease
    obtain ⟨machine, hmachine, -, hstate⟩ := hrun.exists_run
    have hindex : index < w.frames.totalFrames := by
      rw [← hw.framed.sound.units]
      omega
    have hheld : w.heldAfter (.leaseFrames count) (.ok pa) =
        w.held ∪ Ico index (index + count) := by
      simp only [heldAfter, frameRun_eq hw.framed.sound count hindex hpa]
    refine ⟨.ok pa, machine, hmachine, ?_⟩
    change w.plan.leaseFrames count =
      (.ok (.address (pa.seenFrom w.frames.base)),
        machine.state.plan w.ledger (w.heldAfter (.leaseFrames count) (.ok pa)))
    rw [Plan.leaseFrames, if_neg hcount, (plan_run?_eq_some_iff hw hkept).2 hleast,
      Address.seenFrom_of_toNat hpa, hheld, hstate]
    rfl
  · refine follows_of_error (within_framesPart hlease) ?_
    change w.plan.leaseFrames count = _
    rw [Plan.leaseFrames, if_neg hcount, (plan_run?_eq_none_iff hw hkept).2 hnone]
    rfl

theorem returnable_iff
    (hw : w.Orderly) (hkept : w.abandoned = ∅) {pa : PhysAddr} {count index : ℕ} :
    w.frames.Returnable (pa.shownAt w.frames.base) count index ↔
      w.plan.frame? pa = some index ∧ 0 < count ∧ index + count ≤ w.plan.total ∧
        Ico index (index + count) ⊆ w.plan.taken := by
  rw [plan_frame? hw, plan_taken hw hkept]
  change _ ↔ _ ∧ _ ∧ _ ≤ w.frames.totalFrames ∧ _
  rw [← hw.framed.sound.units]
  constructor
  · intro h
    exact ⟨h.frame, h.pos, h.inside, h.leased⟩
  · rintro ⟨hframe, hpos, hinside, hleased⟩
    exact ⟨hframe, hpos, hinside, hleased⟩

theorem permits_iff (hw : w.Orderly) (hkept : w.abandoned = ∅) (command : Command) :
    w.Permits (command.call w.frames.base) ↔ w.plan.Permits command := by
  cases command with
  | giveBackFrames pa count =>
      refine forall_congr' fun index => ?_
      rw [returnable_iff hw hkept, and_imp, and_imp, and_imp]
      rfl
  | _ => exact Iff.rfl

theorem follows_giveBackFrames
    (hw : w.Orderly) (hkept : w.abandoned = ∅) (pa : PhysAddr) (count : ℕ) :
    w.Follows (.giveBackFrames pa count) := by
  by_cases hreturnable : ∃ index, w.frames.Returnable (pa.shownAt w.frames.base) count index
  · obtain ⟨index, hreturnable⟩ := hreturnable
    have hrun : (Call.program (.giveBackFrames (pa.shownAt w.frames.base) count)).Yields
        w.machine.locks w.arena (.ok ())
        { w.arena with frames := w.frames.returning index count hreturnable.inside } :=
      within_framesPart (FramePool.giveBack_of_returnable (hw.locks .frames) hreturnable)
    obtain ⟨machine, hmachine, -, hstate⟩ := hrun.exists_run
    obtain ⟨hindex, hpa⟩ := hw.framed.sound.frameIndex?_eq_some_iff.1 hreturnable.frame
    have hheld : w.heldAfter (.giveBackFrames (pa.shownAt w.frames.base) count) (.ok ()) =
        w.held \ Ico index (index + count) := by
      simp only [heldAfter, frameRun_eq hw.framed.sound count hindex hpa]
    obtain ⟨hframe, hreturns⟩ := (returnable_iff hw hkept).1 hreturnable
    refine ⟨.ok (), machine, hmachine, ?_⟩
    change w.plan.giveBackFrames pa count = (.ok .done, machine.state.plan w.ledger
      (w.heldAfter (.giveBackFrames (pa.shownAt w.frames.base) count) (.ok ())))
    rw [Plan.giveBackFrames, hframe, hheld, hstate]
    exact if_pos hreturns
  · refine follows_of_error (within_framesPart (FramePool.giveBack_of_not (hw.locks .frames)
      fun index h => hreturnable ⟨index, h⟩)) ?_
    change w.plan.giveBackFrames pa count = _
    rw [Plan.giveBackFrames, Failure.seenFrom, Address.seenFrom_shownAt]
    cases hframe : w.plan.frame? pa with
    | none => rfl
    | some index =>
        exact if_neg fun hreturns =>
          hreturnable ⟨index, (returnable_iff hw hkept).2 ⟨hframe, hreturns⟩⟩

theorem follows_of_reservable
    {pa : PhysAddr} {count index : ℕ} (hw : w.Orderly) (hkept : w.abandoned = ∅)
    (hreservable : w.frames.Reservable (pa.shownAt w.frames.base) count index) :
    w.Follows (.reserveFrames pa count) := by
  have hsound : w.frames.Sound := hw.framed.sound
  have hrun : (Call.program (.reserveFrames (pa.shownAt w.frames.base) count)).Yields
      w.machine.locks w.arena (.ok ())
      { w.arena with frames := w.frames.leasing index count hreservable.inside } :=
    within_framesPart (FramePool.reserve_of_reservable hsound (hw.locks .frames) hreservable)
  obtain ⟨machine, hmachine, -, hstate⟩ := hrun.exists_run
  obtain ⟨hindex, hpa⟩ := hsound.frameIndex?_eq_some_iff.1 hreservable.frame
  have hheld : w.heldAfter (.reserveFrames (pa.shownAt w.frames.base) count) (.ok ()) =
      w.held ∪ Ico index (index + count) := by
    simp only [heldAfter, frameRun_eq hsound count hindex hpa]
  have hframe : w.plan.frame? pa = some index := (plan_frame? hw pa).trans hreservable.frame
  have hinside : 0 < count ∧ index + count ≤ w.plan.total :=
    ⟨hreservable.pos, hreservable.inside.trans hsound.units.le⟩
  have hfree : Disjoint w.plan.taken (Ico index (index + count)) := by
    rw [plan_taken hw hkept]
    exact hreservable.free
  refine ⟨.ok (), machine, hmachine, ?_⟩
  change w.plan.reserveFrames pa count = (.ok .done, machine.state.plan w.ledger
    (w.heldAfter (.reserveFrames (pa.shownAt w.frames.base) count) (.ok ())))
  rw [Plan.reserveFrames, hframe, hheld, hstate]
  exact (if_neg (not_not_intro hinside)).trans (if_pos hfree)

theorem follows_reserveFrames
    (hw : w.Orderly) (hkept : w.abandoned = ∅) (pa : PhysAddr) (count : ℕ) :
    w.Follows (.reserveFrames pa count) := by
  have hsound : w.frames.Sound := hw.framed.sound
  have hunits : w.frames.bitmap.units = w.plan.total := hsound.units
  have hframe := plan_frame? hw pa
  by_cases hmanaged : ∃ index, w.plan.frame? pa = some index ∧
      0 < count ∧ index + count ≤ w.plan.total
  · obtain ⟨index, hindex, hinside⟩ := hmanaged
    rw [hindex] at hframe
    by_cases hfree : Disjoint w.plan.taken (Ico index (index + count))
    · have hfree' := hfree
      rw [plan_taken hw hkept] at hfree'
      exact follows_of_reservable hw hkept
        ⟨hframe.symm, hinside.1, hunits ▸ hinside.2, hfree'⟩
    · have hbusy := hfree
      rw [plan_taken hw hkept] at hbusy
      refine follows_of_error (within_framesPart (FramePool.reserve_of_busy hsound
        (hw.locks .frames) hframe.symm hinside.1 (hunits ▸ hinside.2) hbusy)) ?_
      change w.plan.reserveFrames pa count = _
      rw [Plan.reserveFrames, hindex]
      exact (if_neg (not_not_intro hinside)).trans (if_neg hfree)
  · refine follows_of_error (within_framesPart (FramePool.reserve_of_outside hsound
      (hw.locks .frames) fun index hindex hinside => hmanaged ⟨index, ?_, ?_⟩)) ?_
    · exact hframe.trans hindex
    · exact hunits ▸ hinside
    · change w.plan.reserveFrames pa count = _
      rw [Plan.reserveFrames]
      cases hindex : w.plan.frame? pa with
      | none => rfl
      | some index => exact if_pos fun hinside => hmanaged ⟨index, hindex, hinside⟩

/-! ## Every command -/

/-- A world that clients keep in order delivers on every command, and does what
its plan does. -/
theorem follows
    (hw : w.Orderly) (ht : w.Tracked) (hkept : w.abandoned = ∅) (command : Command) :
    w.Follows command := by
  cases command with
  | allocAligned size align => exact follows_allocAligned hw ht hkept size align
  | alloc size =>
      obtain ⟨failure | pa, machine, hrun, hplan⟩ :=
        follows_allocAligned hw ht hkept size (UInt64.ofNat Parameters.unitBytes)
      · exact ⟨.error failure, machine, hrun, hplan⟩
      · exact ⟨.ok pa, machine, hrun, hplan⟩
  | free pa => exact follows_free hw ht pa
  | releaseEmptyRegions => exact follows_releaseEmptyRegions hw ht
  | leaseFrames count => exact follows_leaseFrames hw hkept count
  | giveBackFrames pa count => exact follows_giveBackFrames hw hkept pa count
  | reserveFrames pa count => exact follows_reserveFrames hw hkept pa count

/-! ## Reports -/

/-- What a world reports: the usage of its heap and of its pool, the bytes that
blocks take and the number of leased frames. -/
structure Reports (w : World) (usage : HeapUsage) (frames : FrameUsage) (bytes : UInt64)
    (leased : ℕ) : Prop where
  usage : ∃ machine, stats.run w.machine = some (.ok usage, machine)
  frames : ∃ machine, (within framesPart FramePool.stats).run w.machine =
    some (.ok frames, machine)
  bytes : allocatedBytes.run w.machine = some (.ok bytes, w.machine)
  leased : w.frames.allocatedFrames = leased

theorem units_plan (w : World) : w.plan.units = ∑ b ∈ w.ledger, b.units :=
  sum_image (Block.seenFrom_injective w.frames.base).injOn

theorem card_blocks_plan (w : World) : w.plan.blocks.card = w.ledger.card :=
  card_image_of_injective w.ledger (Block.seenFrom_injective w.frames.base)

theorem usage_plan (hw : w.Orderly) (ht : w.Tracked) :
    RegionTable.usage w.regions w.heap.liveAllocations.value = w.plan.usage := by
  have hregions : total (fun _ => 1) w.regions = w.plan.leases.reduceOption.length := by
    rw [total_eq_sum, plan_leases, List.reduceOption_map, List.length_map, List.map_const',
      List.sum_replicate_nat, Nat.mul_one]
  have hframes : total Region.frames w.regions =
      (w.plan.leases.reduceOption.map Lease.count).sum := by
    rw [total_eq_sum, plan_leases, List.reduceOption_map, List.map_map]
    rfl
  have hused : total Region.used w.regions = w.plan.units :=
    (ht.recorded.total_used hw.framed).trans w.units_plan.symm
  rw [RegionTable.usage, hregions, hframes, hused, ht.recorded.live, ← card_blocks_plan]
  rfl

/-- What a world reports can be read off its plan. -/
theorem reports (hw : w.Orderly) (ht : w.Tracked) (hkept : w.abandoned = ∅) :
    w.Reports w.plan.usage w.plan.frameUsage (UInt64.ofNat (16 * w.plan.units))
      w.plan.taken.card where
  usage := by
    obtain ⟨machine, hrun, -⟩ := (stats_yields hw.framed (hw.locks .heap)).exists_run
    rw [usage_plan hw ht] at hrun
    exact ⟨machine, hrun⟩
  frames := by
    obtain ⟨machine, hrun, -⟩ :=
      (within_framesPart (FramePool.stats_yields hw.framed.sound (hw.locks .frames))).exists_run
    rw [Plan.frameUsage, plan_taken hw hkept]
    exact ⟨machine, hrun⟩
  bytes := by
    rw [units_plan, ← ht.recorded.bytes]
    rfl
  leased := by
    rw [plan_taken hw hkept]
    exact hw.framed.sound.counted

end World

end KernelMemory
