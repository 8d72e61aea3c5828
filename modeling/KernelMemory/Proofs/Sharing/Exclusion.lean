import Mathlib.Algebra.BigOperators.Fin
import Mathlib.Data.DFinsupp.WellFounded
import KernelMemory.Proofs.Heap.Tally
import KernelMemory.Proofs.Sharing.Parties

/-!
# Clients that work at the same time never share memory

What the shares of a party say about its machine, between any two turns.  Every
frame is one client's, or a region's, or nobody's; blocks lie apart, inside
regions; frees and returns succeed.  No party gets stuck: as long as a call is
in progress, some client can go on, and no client goes on for ever.  The main
statement is `Party.Reachable.never_shared`.
-/

namespace KernelMemory

open Arena Finset Program RegionTable

/-! ## What shares exclude -/

namespace Shared

variable {origin : FramePool} {listing : Listing} {total : Share} {locks : Locks LockName}
variable {arena : Arena} {slot other : ℕ} {region region' : Region}
variable (h : Shared origin listing total locks arena) (hcalm : total.Calm)
include h hcalm

theorem not_stale (slot : ℕ) : listing ≠ .stale slot := by
  rintro rfl
  by_cases hnone : total.custody = 0
  · cases (h.idle hnone).1
  · obtain ⟨c, hc⟩ := Multiset.exists_mem_of_ne_zero hnone
    exact hcalm c hc slot (h.known c hc).2.2.2.symm

/-- A region that is listed is one of the heap, or it closes. -/
theorem has_cases (hhas : Has arena.heap.regions slot region) :
    Has (arena.settled listing).heap.regions slot region ∨ listing = .closing slot := by
  cases listing with
  | exact => exact Or.inl hhas
  | stale other => exact absurd rfl (h.not_stale hcalm other)
  | closing other =>
      by_cases hslot : slot = other
      · exact Or.inr (hslot ▸ rfl)
      · exact Or.inl (has_set_none_iff.2 ⟨hhas, hslot⟩)

theorem onFrames (hhas : Has arena.heap.regions slot region) : region.OnFrames arena.frames := by
  rcases h.has_cases hcalm hhas with hsettled | hclosing
  · exact h.framed.onFrames slot region hsettled
  · exact (h.closing slot region hclosing hhas).1

theorem outside_apart (hhas : Has arena.heap.regions slot region) :
    Disjoint total.frames.toFinset (region.frameRun arena.frames) := by
  rcases h.has_cases hcalm hhas with hsettled | hclosing
  · exact h.framed.outside_apart slot region hsettled
  · exact (h.closing slot region hclosing hhas).2.mono_left h.framed.outside_subset

theorem regions_apart
    (hhas : Has arena.heap.regions slot region) (hhas' : Has arena.heap.regions other region')
    (hne : slot ≠ other) :
    Disjoint (region.frameRun arena.frames) (region'.frameRun arena.frames) := by
  rcases h.has_cases hcalm hhas with hsettled | hclosing <;>
    rcases h.has_cases hcalm hhas' with hsettled' | hclosing'
  · exact h.framed.apart slot other region region' hsettled hsettled' hne
  · exact (h.closing other region' hclosing' hhas').2.mono_left (h.framed.frameRun_subset hsettled)
  · exact ((h.closing slot region hclosing hhas).2.mono_left
      (h.framed.frameRun_subset hsettled')).symm
  · rw [hclosing] at hclosing'
    cases hclosing'
    exact absurd rfl hne

end Shared

namespace Party

variable {n : ℕ} {p : Party n} {origin : FramePool} {own : Fin n → Share} {i j : Fin n}

/-! ## Exclusion -/

/-- Every owner has its memory to itself, and whoever gave some back has been
served. -/
structure Exclusive (p : Party n) : Prop where
  onFrames : ∀ slot region, Has p.regions slot region → region.OnFrames p.pool
  regions_apart : ∀ i j a b, Has p.regions i a → Has p.regions j b → i ≠ j →
    Disjoint (a.frameRun p.pool) (b.frameRun p.pool)
  frames_apart : ∀ i j, i ≠ j → Disjoint (p.clients i).frames (p.clients j).frames
  frames_outside : ∀ i slot region, Has p.regions slot region →
    Disjoint (p.clients i).frames (region.frameRun p.pool)
  frames_leased : ∀ i, (p.clients i).frames ⊆ p.pool.leasedFrames
  blocks_apart : ∀ i j, ∀ b ∈ (p.clients i).blocks, ∀ c ∈ (p.clients j).blocks,
    i ≠ j ∨ b ≠ c → b.Apart c
  blocks_housed : ∀ i, ∀ b ∈ (p.clients i).blocks,
    ∃ slot region, Has p.regions slot region ∧ region.Holds b
  delivers : ∀ i call result, (p.clients i).task = some ⟨call, .done result⟩ →
    call.Delivers result

theorem holdings_le_total
    {α : Type} (part : Share →+ Multiset α) (p : Party n) (own : Fin n → Share) (i : Fin n) :
    part (p.clients i).holdings ≤ part (p.total own) := by
  rw [p.total_eq own i, map_add, map_add]
  exact (Multiset.le_add_right _ _).trans (Multiset.le_add_left _ _)

/-- What two clients hold is apart, if no two things of all are the same. -/
theorem holdings_disjoint
    {α : Type} (part : Share →+ Multiset α) (hnodup : (part (p.total own)).Nodup) (hne : i ≠ j) :
    Disjoint (part (p.clients i).holdings) (part (p.clients j).holdings) := by
  rw [p.total_eq own i, map_add, map_add] at hnodup
  have hrest := (Multiset.nodup_add.1 hnodup).2.1
  refine (Multiset.disjoint_of_nodup_add hrest).mono_right ?_
  have hmem : j ∈ univ.erase i := mem_erase.2 ⟨hne.symm, mem_univ j⟩
  rw [others, ← add_sum_erase _ _ hmem, map_add, map_add, add_assoc]
  exact Multiset.le_add_right _ _

theorem exists_custodian {c : Custody} (hc : c ∈ (p.total own).custody) :
    ∃ i, c ∈ (own i).custody := by
  rw [custody_total, Multiset.mem_sum] at hc
  obtain ⟨i, -, hc⟩ := hc
  exact ⟨i, hc⟩

theorem Held.calm (h : p.Held origin own) : (p.total own).Calm := by
  intro c hc slot
  obtain ⟨i, hown⟩ := exists_custodian hc
  have hfits := h.fits i
  rw [Client.Fits] at hfits
  cases htask : (p.clients i).task with
  | none =>
      rw [htask] at hfits
      rw [hfits] at hown
      exact absurd hown (Multiset.notMem_zero c)
  | some task =>
      rw [htask] at hfits
      exact hfits.1 c hown slot

theorem Held.exclusive (h : p.Held origin own) : p.Exclusive := by
  obtain ⟨listing, hshared⟩ := h.shared
  have hcalm := h.calm
  have hframes (i : Fin n) : (p.clients i).frames ⊆ (p.total own).frames.toFinset := by
    intro f hf
    exact Multiset.mem_toFinset.2
      (Multiset.mem_of_le (holdings_le_total Share.framesHom p own i) hf)
  refine ⟨fun _ _ => hshared.onFrames hcalm, fun _ _ _ _ => hshared.regions_apart hcalm,
    fun i j hne => ?_, fun i slot region hhas => ?_, fun i => ?_, fun i j b hb c hc hne => ?_,
    fun i b hb => ?_, fun i call result hended => ?_⟩
  · exact disjoint_val.1 (holdings_disjoint Share.framesHom hshared.frames_nodup hne)
  · exact (hshared.outside_apart hcalm hhas).mono_left (hframes i)
  · exact (hframes i).trans hshared.framed.outside_subset
  · refine hshared.apart b (mem_total_blocks hb) c (mem_total_blocks hc) ?_
    rintro rfl
    have hij := hne.resolve_right (not_not.2 rfl)
    have hdisjoint := disjoint_val.1
      (holdings_disjoint Share.blocksHom hshared.blocks_nodup hij)
    exact disjoint_left.1 hdisjoint hb hc
  · exact (hshared.housed b (mem_total_blocks hb)).of_settled
  · have hfits := h.fits i
    rw [Client.Fits, hended] at hfits
    have hends : call.Ends origin result (own i) := hfits.2
    exact hends.delivers

/-! ## Progress -/

/-- A client in a call can go on, or waits for a lock that it may take. -/
theorem Held.works_or_waits (h : p.Held origin own) (hbusy : ¬ (p.clients i).Idle) :
    (∃ p', p.Works p') ∨
      ∃ name, ¬ p.machine.locks.IsFree name ∧ (sharing origin).mayTake name (own i) := by
  obtain ⟨⟨call, program⟩, htask⟩ := Option.ne_none_iff_exists'.1 hbusy
  have hfits := h.fits i
  rw [Client.Fits, htask] at hfits
  have hinv := h.shared
  rw [p.total_eq own i] at hinv
  rcases Keeps.progress hfits.2 hinv with
    ⟨result, rfl, -⟩ | ⟨name, next, -, hwaits, hmay⟩ | hwait | ⟨out, hadvance⟩
  · exact Or.inl ⟨_, .finish htask⟩
  · exact Or.inr ⟨name, hwaits, hmay⟩
  · exact hwait.elim
  · obtain ⟨⟨rest, machine⟩, hturn⟩ := exists_turn .frames hadvance
    exact Or.inl ⟨_, .turn htask hturn⟩

theorem Held.busy (h : p.Held origin own) (hown : own i ≠ 0) : ¬ (p.clients i).Idle := by
  intro hidle
  have hfits := h.fits i
  rw [Client.Fits, hidle] at hfits
  exact hown hfits

theorem Held.exists_custodian
    (h : p.Held origin own) (hcustody : (p.total own).custody ≠ 0) :
    ∃ i, ¬ (p.clients i).Idle ∧ ∃ c ∈ (own i).custody, c ∈ (p.total own).custody := by
  obtain ⟨c, hc⟩ := Multiset.exists_mem_of_ne_zero hcustody
  obtain ⟨i, hi⟩ := Party.exists_custodian hc
  refine ⟨i, h.busy fun hown => ?_, c, hi, hc⟩
  rw [hown] at hi
  exact Multiset.notMem_zero c hi

/-- Somebody holds the heap lock when it is not free, and will not ask for it
again. -/
theorem Held.exists_heap_holder
    (h : p.Held origin own) (hheld : ¬ p.machine.locks.IsFree .heap) :
    ∃ i, ¬ (p.clients i).Idle ∧ ¬ (sharing origin).mayTake .heap (own i) := by
  obtain ⟨listing, hshared⟩ := h.shared
  have hcustody : (p.total own).custody ≠ 0 := by
    intro hnone
    have hcard := hshared.custody
    rw [hnone, Multiset.card_zero] at hcard
    exact hheld (Locks.holders_eq_zero_iff.1 hcard.symm)
  obtain ⟨i, hbusy, c, hi, -⟩ := h.exists_custodian hcustody
  refine ⟨i, hbusy, fun hmay => ?_⟩
  rw [hmay.2.2 rfl] at hi
  exact Multiset.notMem_zero c hi

/-- Somebody holds the frame lock when it is not free, and will not ask for any
lock until it has freed it. -/
theorem Held.exists_frames_holder
    (h : p.Held origin own) (hheld : ¬ p.machine.locks.IsFree .frames) :
    ∃ i, ¬ (p.clients i).Idle ∧ ∀ name, ¬ (sharing origin).mayTake name (own i) := by
  obtain ⟨listing, hshared⟩ := h.shared
  have hgates := hshared.gates
  by_cases htotal : (p.total own).gates = 0
  · -- it is held for a region that closes
    have hlisting : listing ≠ .exact := by
      rintro rfl
      rw [htotal] at hgates
      exact hheld (Locks.holders_eq_zero_iff.1 hgates.symm)
    have hcustody : (p.total own).custody ≠ 0 := fun hnone => hlisting (hshared.idle hnone).1
    obtain ⟨i, hbusy, c, hi, hc⟩ := h.exists_custodian hcustody
    exact ⟨i, hbusy, fun name hmay => hlisting ((hshared.known c hc).2.2.2.trans (hmay.1 c hi))⟩
  · rw [gates_total] at htotal
    obtain ⟨i, -, hown⟩ := exists_ne_zero_of_sum_ne_zero htotal
    refine ⟨i, h.busy ?_, fun name hmay => hown hmay.2.1⟩
    intro hnone
    rw [hnone] at hown
    exact hown rfl

/-- As long as a call is in progress, some client can go on. -/
theorem Held.works (h : p.Held origin own) (hbusy : ¬ (p.clients i).Idle) :
    ∃ p', p.Works p' := by
  have hframes (hheld : ¬ p.machine.locks.IsFree .frames) : ∃ p', p.Works p' := by
    obtain ⟨j, hj, hmay⟩ := h.exists_frames_holder hheld
    exact (h.works_or_waits hj).resolve_right fun ⟨name, _, hname⟩ => hmay name hname
  rcases h.works_or_waits hbusy with hworks | ⟨name, hheld, -⟩
  · exact hworks
  cases name with
  | frames => exact hframes hheld
  | heap =>
      obtain ⟨j, hj, hmay⟩ := h.exists_heap_holder hheld
      rcases h.works_or_waits hj with hworks | ⟨name, hheld', hname⟩
      · exact hworks
      · cases name with
        | frames => exact hframes hheld'
        | heap => exact absurd hname hmay

/-! ## The end of all calls -/

/-- What is left of a call after a turn, or after its end. -/
inductive Remains : Option (Σ call : Call, Program LockName Arena call.Answer) →
    Option (Σ call : Call, Program LockName Arena call.Answer) → Prop
  | rest {call : Call} {rest program : Program LockName Arena call.Answer}
      (follows : Relation.TransGen Follows rest program) :
      Remains (some ⟨call, rest⟩) (some ⟨call, program⟩)
  | nothing {call : Call} {result : Result call.Answer} :
      Remains none (some ⟨call, .done result⟩)

theorem wellFounded_remains : WellFounded Remains := by
  have hnone : Acc Remains none := ⟨_, fun task h => nomatch h⟩
  refine ⟨fun task => ?_⟩
  cases task with
  | none => exact hnone
  | some task =>
      obtain ⟨call, program⟩ := task
      have hprogram := (wellFounded_follows.transGen).apply program
      induction hprogram with
      | intro program _ ih =>
          refine ⟨_, fun task h => ?_⟩
          cases h with
          | rest follows => exact ih _ follows
          | nothing => exact hnone

/-- One client has less to do, and the others as much as before. -/
theorem Works.remains {p' : Party n} (h : p.Works p') :
    Pi.Lex (· < ·) (fun {_} => Remains) (fun i => (p'.clients i).task)
      (fun i => (p.clients i).task) := by
  have hset {i : Fin n} {x : Client} (hremains : Remains x.task (p.clients i).task) :
      Pi.Lex (· < ·) (fun {_} => Remains) (fun j => ((p.set i x).clients j).task)
        (fun j => (p.clients j).task) := by
    refine ⟨i, fun j hj => ?_, ?_⟩
    · have hne : j ≠ i := ne_of_lt hj
      simp only [set, Function.update_of_ne hne]
    · simpa only [set, Function.update_self] using hremains
  cases h with
  | turn running turn => exact hset (running ▸ .rest (turn_follows turn))
  | finish ended => exact hset (ended ▸ .nothing)

/-- No party works for ever without starting calls. -/
theorem wellFounded_works : WellFounded fun p' p : Party n => p.Works p' :=
  Subrelation.wf Works.remains
    (InvImage.wf (fun (p : Party n) i => (p.clients i).task)
      (Pi.Lex.wellFounded (· < ·) fun _ => wellFounded_remains))

/-- As long as a call is in progress some client can go on, and they cannot for
ever: in whatever order the clients take turns, all calls end. -/
structure Progresses (p : Party n) : Prop where
  works : ∀ i, ¬ (p.clients i).Idle → ∃ p', p.Works p'
  ends : Acc (fun p' p : Party n => p.Works p') p

/-! ## Accounts between calls -/

/-- What heap and pool report agrees with what clients and regions have. -/
structure Balanced (p : Party n) (usage : HeapUsage) (frames : FrameUsage) : Prop where
  live : usage.liveAllocations.toNat = ∑ i, (p.clients i).blocks.card
  leased : frames.allocated =
    (∑ i, (p.clients i).frames.card) + RegionTable.total Region.frames p.regions
  counter : p.pool.allocatedFrames = frames.allocated

/-- Between calls the reports are those of the holdings. -/
theorem Held.exists_reports (h : p.Held origin own) (hidle : ∀ i, (p.clients i).Idle) :
    ∃ usage frames machine machine',
      stats.run p.machine = some (.ok usage, machine) ∧ machine.state = p.arena ∧
      (within framesPart FramePool.stats).run p.machine = some (.ok frames, machine') ∧
      machine'.state = p.arena ∧ p.Balanced usage frames := by
  obtain ⟨listing, hshared⟩ := h.shared
  have hown (i : Fin n) : own i = 0 := by
    have hfits := h.fits i
    rwa [Client.Fits, hidle i] at hfits
  have hcustody : (p.total own).custody = 0 := by
    rw [custody_total]
    exact sum_eq_zero fun i _ => congrArg Share.custody (hown i)
  have hgates : (p.total own).gates = 0 := by
    rw [gates_total]
    exact sum_eq_zero fun i _ => congrArg Share.gates (hown i)
  obtain ⟨rfl, hrecorded⟩ := hshared.idle hcustody
  have hheap : p.machine.locks.IsFree .heap := by
    rw [← Locks.holders_eq_zero_iff, ← hshared.custody, hcustody]
    rfl
  have hfree : p.machine.locks.IsFree .frames := by
    rw [← Locks.holders_eq_zero_iff, ← hshared.gates, hgates]
    rfl
  have hframed : p.arena.Framed (p.total own).frames.toFinset := hshared.framed
  have hblocks : (p.total own).blocks.toFinset.card = ∑ i, (p.clients i).blocks.card := by
    rw [Multiset.toFinset_card_of_nodup hshared.blocks_nodup, blocks_total, Multiset.card_sum]
    exact sum_congr rfl fun i _ => by rw [hown, Share.blocks_zero, add_zero, card_val]
  have hframes : (p.total own).frames.toFinset.card = ∑ i, (p.clients i).frames.card := by
    rw [Multiset.toFinset_card_of_nodup hshared.frames_nodup, frames_total, Multiset.card_sum]
    exact sum_congr rfl fun i _ => by rw [hown, Share.frames_zero, add_zero, card_val]
  obtain ⟨machine, hrun, -, hstate⟩ := (stats_yields hframed hheap).exists_run
  obtain ⟨machine', hrun', -, hstate'⟩ :=
    (within_framesPart (FramePool.stats_yields hframed.sound hfree)).exists_run
  refine ⟨_, _, machine, machine', hrun, hstate, hrun', hstate', ?_, ?_, hframed.sound.counted⟩
  · obtain ⟨hcard, hlt⟩ := hrecorded.units_lt hframed
    change p.arena.heap.liveAllocations.value.toNat = _
    rw [hrecorded.live, UInt64.toNat_ofNat_of_lt' (by omega), hblocks]
  · rw [← hframes]
    exact hframed.card_leasedFrames

/-- In every reachable party, whatever the clients are in the middle of, they
share no memory with each other or with the heap, and what they give back is
taken; all calls end, and then the accounts agree with what there is. -/
theorem Reachable.never_shared (h : Reachable p) :
    p.Exclusive ∧ p.Progresses ∧
      ((∀ i, (p.clients i).Idle) → ∃ usage frames machine machine',
        stats.run p.machine = some (.ok usage, machine) ∧ machine.state = p.arena ∧
        (within framesPart FramePool.stats).run p.machine = some (.ok frames, machine') ∧
        machine'.state = p.arena ∧ p.Balanced usage frames) := by
  obtain ⟨origin, own, -, hheld⟩ := h.held
  exact ⟨hheld.exclusive, ⟨fun i => hheld.works, wellFounded_works.apply p⟩, hheld.exists_reports⟩

/-! ## Two clients -/

/-- A client that takes all the turns ends its call as it would alone. -/
theorem works_alone
    {call : Call} {program : Program LockName Arena call.Answer} {result : Result call.Answer}
    {machine : Machine LockName Arena} (htask : (p.clients i).task = some ⟨call, program⟩)
    (hrun : program.run p.machine = some (result, machine)) :
    Relation.ReflTransGen Works p
      ⟨machine, (p.set i ((p.clients i).goOn call (.done result))).clients⟩ := by
  have hprogram := (wellFounded_follows.transGen).apply program
  induction hprogram generalizing p with
  | intro program _ ih =>
      rcases advance_of_run hrun with ⟨result', rfl⟩ | ⟨out, hadvance⟩
      · cases hrun
        have hsame : (p.clients i).goOn call (.done result) = p.clients i := by
          rw [Client.goOn, ← htask]
        rw [hsame, set, Function.update_eq_self]
      · obtain ⟨⟨rest, machine₁⟩, hturn⟩ := exists_turn .frames hadvance
        refine .head (.turn htask hturn) ?_
        have hrest : rest.run machine₁ = some (result, machine) := (run_of_turn hturn).trans hrun
        have hlater := ih rest (turn_follows hturn)
          (p := ⟨machine₁, (p.set i ((p.clients i).goOn call rest)).clients⟩)
          (by simp only [set, Function.update_self, Client.goOn]) hrest
        simpa only [set, Function.update_self, Function.update_idem, Client.goOn] using hlater

theorem Reachable.of_works {p' : Party n} (h : Reachable p)
    (hworks : Relation.ReflTransGen Works p p') : Reachable p' := by
  induction hworks with
  | refl => exact h
  | tail _ last ih => exact .step ih (.work last)

/-- A call without interruption ends as it would alone. -/
theorem Reachable.call
    {call : Call} {result : Result call.Answer} {machine : Machine LockName Arena}
    (h : Reachable p) (hidle : (p.clients i).Idle) (hpermits : (p.clients i).Permits p.pool call)
    (hrun : call.program.run p.machine = some (result, machine)) :
    Reachable ⟨machine, (p.set i (((p.clients i).start p.pool call).finish machine.state.frames
      call result)).clients⟩ := by
  let started : Party n := p.set i ((p.clients i).start p.pool call)
  let ended : Party n :=
    ⟨machine, (started.set i ((started.clients i).goOn call (.done result))).clients⟩
  have htask : (started.clients i).task = some ⟨call, call.program⟩ := by
    simp only [started, set, Function.update_self, Client.start]
  have hended : Reachable ended :=
    (h.step (.start hidle hpermits)).of_works (works_alone htask hrun)
  have hfinish : ended.Works (ended.set i ((ended.clients i).finish ended.pool call result)) :=
    .finish (by simp only [ended, set, Function.update_self, Client.goOn])
  have hfinished := hended.step (.work hfinish)
  simpa only [ended, started, set, Function.update_self, Function.update_idem, Client.goOn,
    Client.finish] using hfinished

/-- The first lease of a fresh party takes the first frame. -/
theorem Fresh.exists_leased (h : p.Fresh) (i : Fin n) (hroom : 0 < p.pool.totalFrames) :
    ∃ p', Reachable p' ∧ p'.clients = Function.update p.clients i ⟨∅, {0}, none⟩ := by
  obtain ⟨base, totalMemory, storage, hcreate⟩ := h.pool
  obtain ⟨hsound, hleased⟩ := FramePool.sound_of_create hcreate
  have hleast := hsound.isLeast_fits hleased hroom
  rcases FramePool.lease_cases hsound (h.locks .frames) Nat.zero_lt_one with
    ⟨index, hindex, hinside, pa, hpa, hlease⟩ | ⟨hnone, -⟩
  swap
  · exact absurd hleast.1 (hnone 0)
  cases hindex.unique hleast
  obtain ⟨machine, hrun, -, hstate⟩ := (within_framesPart hlease).exists_run
  have hidle : (p.clients i).Idle := by rw [Client.Idle, h.clients]
  have hcall : (Call.leaseFrames 1).program.run p.machine = some (.ok pa, machine) := hrun
  have hpermits : (p.clients i).Permits p.pool (.leaseFrames 1) := trivial
  refine ⟨_, (Reachable.fresh h).call hidle hpermits hcall, ?_⟩
  have hframe : machine.state.frames.frameIndex? pa = some 0 := by
    rw [hstate, (hsound.leasing (FramePool.disjoint_of_fits hleast.1)).frameIndex?_eq_some_iff]
    exact ⟨hroom, hpa⟩
  have hgained : (Call.leaseFrames 1).gainedFrames machine.state.frames (.ok pa) = {0} :=
    FramePool.runAt_eq hframe 1
  have hclient : ((p.clients i).start p.pool (.leaseFrames 1)).finish machine.state.frames
      (.leaseFrames 1) (.ok pa) = ⟨∅, {0}, none⟩ := by
    rw [Client.finish, hgained, Client.start, h.clients]
    rfl
  exact congrArg (Function.update p.clients i) hclient

/-- Of two clients one leases a frame, which the pool then counts, and the other
starts an allocation. -/
theorem exists_two_clients :
    ∃ p p' : Party 2, Reachable p ∧ (∀ i, (p.clients i).Idle) ∧ (p.clients 0).frames = {0} ∧
      (∃ frames machine, (within framesPart FramePool.stats).run p.machine =
        some (.ok frames, machine) ∧ 0 < frames.allocated) ∧
      p.Step p' ∧ ¬ (p'.clients 1).Idle ∧ 0 ∈ p'.pool.leasedFrames ∧ ∃ p'', p'.Works p'' := by
  obtain ⟨pool, hcreate, hbase, htotal⟩ := FramePool.usable_thirtyTwo.exists_pool
  have hspans : DirectMap.higherHalf.Spans pool := by
    rw [DirectMap.Spans, FramePool.totalFrames, hbase, htotal]
    decide
  have hreaches : DirectMap.higherHalf.Reaches pool := hspans.reaches (hbase ▸ by decide)
  let fresh : Party 2 :=
    ⟨.fresh .spin ⟨.filled ⟨0x100000⟩ 0 0, pool, Heap.empty .higherHalf⟩, fun _ => ⟨∅, ∅, none⟩⟩
  have hfresh : fresh.Fresh :=
    ⟨⟨_, _, _, hcreate⟩, ⟨_, rfl⟩, hreaches, Locks.isFree_free .spin, fun _ => rfl⟩
  have hroom : 0 < fresh.pool.totalFrames := by
    change 0 < pool.totalFrames
    rw [FramePool.totalFrames, htotal]
    decide
  obtain ⟨p, hreachable, hclients⟩ := hfresh.exists_leased 0 hroom
  have hzero : p.clients 0 = ⟨∅, {0}, none⟩ := by
    rw [hclients]
    rfl
  have hone : p.clients 1 = ⟨∅, ∅, none⟩ := by
    rw [hclients]
    rfl
  have hidle : ∀ i, (p.clients i).Idle := by
    rw [Fin.forall_fin_two, Client.Idle, Client.Idle, hzero, hone]
    exact ⟨rfl, rfl⟩
  let p' : Party 2 := p.set 1 ((p.clients 1).start p.pool (.alloc 100))
  have hstep : p.Step p' := .start (hidle 1) trivial
  have hbusy : ¬ (p'.clients 1).Idle := by
    simp only [p', set, Function.update_self, Client.start, Client.Idle, reduceCtorEq,
      not_false_eq_true]
  obtain ⟨-, -, hreports⟩ := hreachable.never_shared
  obtain ⟨_, frames, _, machine, -, -, hrun, -, hbalanced⟩ := hreports hidle
  obtain ⟨hexclusive, hprogresses, -⟩ := (Reachable.step hreachable hstep).never_shared
  refine ⟨p, p', hreachable, hidle, congrArg Client.frames hzero, ⟨frames, machine, hrun, ?_⟩,
    hstep, hbusy, ?_, hprogresses.works 1 hbusy⟩
  · have hcard : (p.clients 0).frames.card = 1 := by
      rw [hzero]
      rfl
    have hleased := hbalanced.leased
    rw [Fin.sum_univ_two] at hleased
    omega
  · refine hexclusive.frames_leased 0 ?_
    change 0 ∈ (p.clients 0).frames
    rw [hzero]
    exact mem_singleton_self 0

end Party

end KernelMemory
