import KernelMemory.Proofs.Sharing.Shares

/-!
# Leasing frames while others work

The operations of a frame pool keep to the shares of their contexts.  They look
at the pool only while they hold the frame lock, so it does not matter what
others do before and after: a lease adds a run of frames to what its context
owns, whatever else the context owns, and a return of owned frames succeeds.

The heap leases and returns frames by the same operations in the middle of its
own.  What it leases it owns as any context would; when it returns a region that
the table still lists, the region closes (`keeps_closeRegion`).
-/

namespace KernelMemory

open Finset Program RegionTable

/-! ## Frames of a share -/

section Runs

variable {G : Multiset ℕ} {run : Finset ℕ}

theorem nodup_add_val : (G + run.val).Nodup ↔ G.Nodup ∧ Disjoint G.toFinset run := by
  rw [Multiset.nodup_add, and_iff_right run.nodup, ← disjoint_val, Multiset.disjoint_left,
    Multiset.disjoint_left]
  simp

theorem toFinset_add_val : (G + run.val).toFinset = G.toFinset ∪ run := by
  rw [Multiset.toFinset_add, val_toFinset]

theorem toFinset_eq_sdiff (h : (G + run.val).Nodup) :
    G.toFinset = (G + run.val).toFinset \ run := by
  rw [toFinset_add_val, union_sdiff_cancel_right (nodup_add_val.1 h).2]

end Runs

/-- How a call ends: what it delivers, or that it is refused and leaves the
context with what it owned. -/
def Settles {α : Type} (served : α → Share → Prop) (refused : Share) : Result α → Share → Prop
  | .ok a, own => served a own
  | .error (.refused _), own => own = refused
  | .error (.fault _), _ => False

theorem Settles.cases
    {α : Type} {served : α → Share → Prop} {refused own : Share} {result : Result α}
    (h : Settles served refused result own) :
    (∃ a, result = .ok a ∧ served a own) ∨ ∃ error, result = .refuse error ∧ own = refused := by
  cases result with
  | ok a => exact Or.inl ⟨a, rfl, h⟩
  | error failure =>
      cases failure with
      | refused error => exact Or.inr ⟨error, rfl, h⟩
      | fault _ => exact h.elim

section Frames

variable {origin : FramePool} {listing : Listing} {env : Share}
variable {locks : Locks LockName} {arena : Arena}
variable {B : Multiset Block} {F F' : Multiset ℕ} {C : Multiset Custody} {c : Custody}
variable {pa : PhysAddr} {index count slot : ℕ} {region : Region}

/-- Whoever holds the frame lock changes the pool, and what it owns of it. -/
theorem Shared.exchange
    {pool : FramePool} (h : Shared origin listing (⟨B, F, C, 1⟩ + env) locks arena)
    (hbase : pool.base = arena.frames.base) (htotal : pool.totalMemory = arena.frames.totalMemory)
    (hnodup : (F' + env.frames).Nodup)
    (hframed : ({ arena.settled listing with frames := pool } : Arena).Framed
      (F' + env.frames).toFinset) :
    Shared origin listing (⟨B, F', C, 1⟩ + env) locks { arena with frames := pool } :=
  have hpos : 0 < 1 + env.gates := by omega
  { h with
    base := hbase.trans h.base
    totalMemory := htotal.trans h.totalMemory
    frames_nodup := hnodup
    framed := hframed
    closing := fun slot _ hlisting => absurd hlisting (h.not_closing hpos slot)
    idle := fun hnone => ⟨(h.idle hnone).1, (h.idle hnone).2.of_frames rfl rfl⟩ }

/-- Whoever holds the frame lock takes free frames. -/
theorem Shared.take
    (h : Shared origin listing (⟨B, F, C, 1⟩ + env) locks arena)
    (hinside : index + count ≤ arena.frames.bitmap.units)
    (hfree : Disjoint arena.frames.leasedFrames (Ico index (index + count))) :
    Shared origin listing (⟨B, F + (Ico index (index + count)).val, C, 1⟩ + env) locks
      { arena with frames := arena.frames.leasing index count hinside } := by
  have houtside : (F + env.frames).toFinset ⊆ arena.frames.leasedFrames := h.framed.outside_subset
  refine h.exchange rfl rfl ?_ ?_
  · rw [add_right_comm, nodup_add_val]
    exact ⟨h.frames_nodup, hfree.mono_left houtside⟩
  · rw [add_right_comm, toFinset_add_val]
    exact h.framed.takeFrames hinside hfree

/-- Whoever holds the frame lock returns frames of its own. -/
theorem Shared.return
    (h : Shared origin listing (⟨B, F + (Ico index (index + count)).val, C, 1⟩ + env) locks arena)
    (hinside : index + count ≤ arena.frames.bitmap.units) :
    Shared origin listing (⟨B, F, C, 1⟩ + env) locks
      { arena with frames := arena.frames.returning index count hinside } := by
  have hnodup := h.frames_nodup
  have hframed := h.framed
  rw [Share.frames_add, add_right_comm] at hnodup hframed
  refine h.exchange rfl rfl (nodup_add_val.1 hnodup).1 ?_
  rw [toFinset_eq_sdiff hnodup]
  refine hframed.returnFrames hinside ?_
  rw [toFinset_add_val]
  exact subset_union_right

theorem Shared.leased
    (h : Shared origin listing (⟨B, F + (Ico index (index + count)).val, C, 1⟩ + env) locks arena) :
    Ico index (index + count) ⊆ arena.frames.leasedFrames := by
  refine Subset.trans ?_ h.framed.outside_subset
  rw [Share.frames_add, add_right_comm, toFinset_add_val]
  exact subset_union_right

theorem frees_refused
    {α : Type} {served : α → Share → Prop} (hexact : (⟨B, F, C, 0⟩ : Share).Exact)
    (error : AllocError) :
    (sharing origin).Frees ⟨B, F, C, 1⟩ .frames
      (Settles served ⟨B, F, C, 0⟩ (.refuse error)) :=
  (frees_frames hexact.calm).mono fun _ hown => hown

/-! ## Leasing -/

theorem keeps_claim (hexact : (⟨B, F, C, 0⟩ : Share).Exact) (count : ℕ) :
    Keeps (sharing origin) ⟨B, F, C, 0⟩
      (within Arena.framesPart (FramePool.locked (FramePool.claim count)))
      (Settles (fun index own' => index < origin.totalFrames ∧
        own' = ⟨B, F + (Ico index (index + count)).val, C, 0⟩) ⟨B, F, C, 0⟩) := by
  refine keeps_locked hexact fun env listing locks arena h => ?_
  rcases Nat.eq_zero_or_pos count with rfl | hcount
  · exact ⟨_, _, _, FramePool.perform_claim_zero, ⟨listing, h⟩, frees_refused hexact _⟩
  rcases FramePool.perform_claim_cases h.framed.sound hcount with
    ⟨index, hleast, hinside, hclaim⟩ | ⟨-, hclaim⟩
  · refine ⟨_, _, _, hclaim, ⟨listing, h.take hinside (FramePool.disjoint_of_fits hleast.1)⟩,
      (frees_frames ?_).mono fun own' hown => ⟨?_, hown⟩⟩
    · exact hexact.calm
    · have hunits : arena.frames.bitmap.units = arena.frames.totalFrames := h.framed.sound.units
      rw [FramePool.totalFrames, h.totalMemory, ← FramePool.totalFrames] at hunits
      change index + count ≤ arena.frames.bitmap.units at hinside
      omega
  · exact ⟨_, _, _, hclaim, ⟨listing, h⟩, frees_refused hexact _⟩

theorem keeps_lease (hexact : (⟨B, F, C, 0⟩ : Share).Exact) (count : ℕ) :
    Keeps (sharing origin) ⟨B, F, C, 0⟩ (within Arena.framesPart (FramePool.lease count))
      (Settles (fun pa own' => ∃ index, index < origin.totalFrames ∧
        pa.val.toNat = origin.frameStart index ∧
        own' = ⟨B, F + (Ico index (index + count)).val, C, 0⟩) ⟨B, F, C, 0⟩) := by
  rw [FramePool.lease, within_bind, within_outcome]
  refine Keeps.bind (Keeps.outcome ((keeps_claim hexact count).mono fun result own' hpost => ?_))
  rcases hpost.cases with ⟨index, rfl, hindex, rfl⟩ | ⟨error, rfl, rfl⟩
  · simp only [within_bind]
    refine Keeps.bind (keeps_inspectFrames fun env listing locks arena h => ?_)
    have hindex' : index < arena.frames.totalFrames := by
      rwa [FramePool.totalFrames, h.totalMemory]
    obtain ⟨pa, haddress, hpa⟩ := h.framed.sound.addressOf_eq hindex'
    have haddress' : arena.frames.addressOf index = .ok pa := haddress
    simp only [haddress']
    refine Keeps.bind (keeps_done ?_)
    exact Keeps.bind (keeps_report
      (keeps_pure ⟨index, hindex, hpa.trans (h.frameStart_eq index), rfl⟩))
  · cases error <;> exact rfl

/-! ## Returning -/

/-- A return of frames that the pool manages succeeds if their section does. -/
theorem keeps_giveBack_of
    {own : Share} {post : Share → Prop}
    (hframe : ∀ env listing locks arena, Shared origin listing (own + env) locks arena →
      ∃ index, arena.frames.frameIndex? pa = some index ∧
        Keeps (sharing origin) own
          (within Arena.framesPart (FramePool.locked (FramePool.reclaim index count)))
          fun result own' => result = .ok true ∧ post own') :
    Keeps (sharing origin) own (within Arena.framesPart (FramePool.giveBack pa count))
      fun result own' => result = .ok () ∧ post own' := by
  rw [FramePool.giveBack, within_bind]
  refine Keeps.bind (keeps_inspectFrames fun env listing locks arena h => ?_)
  obtain ⟨index, hindex, hreclaim⟩ := hframe env listing locks arena h
  simp only [hindex]
  rw [within_bind]
  refine Keeps.bind (hreclaim.mono ?_)
  rintro result own' ⟨rfl, hpost⟩
  exact keeps_report ⟨rfl, hpost⟩

theorem keeps_giveBack
    (hexact : (⟨B, F, C, 0⟩ : Share).Exact) (hframe : origin.frameIndex? pa = some index)
    (hcount : 0 < count) :
    Keeps (sharing origin) ⟨B, F + (Ico index (index + count)).val, C, 0⟩
      (within Arena.framesPart (FramePool.giveBack pa count))
      fun result own' => result = .ok () ∧ own' = ⟨B, F, C, 0⟩ := by
  refine keeps_giveBack_of fun env listing locks arena h => ⟨index, ?_, ?_⟩
  · rw [h.frameIndex?_eq, hframe]
  refine keeps_locked hexact fun env listing locks arena h => ?_
  have hleased := h.leased
  have hinside : index + count ≤ arena.frames.bitmap.units := by
    have hlast : index + count - 1 ∈ Ico index (index + count) := by
      rw [mem_Ico]
      omega
    have := (FramePool.mem_leasedFrames.1 (hleased hlast)).1
    omega
  exact ⟨_, _, _, FramePool.perform_reclaim_of_leased hcount hinside hleased,
    ⟨listing, h.return hinside⟩,
    (frees_frames (hexact.calm)).mono fun own' hown => ⟨rfl, hown⟩⟩

/-- Whoever holds both locks returns the frames of a region without blocks. -/
theorem Shared.close
    (h : Shared origin .exact (⟨B, F, {c}, 1⟩ + env) locks arena)
    (hrecorded : arena.Recorded c.ledger) (hhas : Has arena.heap.regions slot region)
    (hused : region.used = 0)
    (hinside : region.firstFrame arena.frames + region.frames ≤ arena.frames.bitmap.units) :
    Shared origin (.closing slot)
      (⟨B, F, {{ c with listing := .closing slot }}, 0⟩ + env) locks
      { arena with frames := arena.frames.returning _ _ hinside } := by
  let arena' : Arena := { arena with frames := arena.frames.returning _ _ hinside }
  have hgates : 1 + env.gates + 0 = locks.holders .frames := h.gates
  have hreleased : Arena.Released arena (arena'.settled (.closing slot)) [slot] 1 :=
    .drop hhas hused rfl rfl rfl rfl
  refine h.alter arena' ⟨h.known_self.1, h.known_self.2.1⟩ rfl rfl rfl ?_
    h.frames_nodup (hreleased.recorded hrecorded).held (h.framed.returnRegion hhas rfl rfl rfl) ?_
  · change 0 + env.gates + 1 = _
    omega
  · intro other region' hlisting hhas'
    cases hlisting
    cases hhas.unique hhas'
    refine ⟨(h.framed.onFrames slot region hhas).of_range rfl rfl, ?_⟩
    change Disjoint (arena.frames.returning _ _ hinside).leasedFrames _
    rw [FramePool.leasedFrames_returning]
    exact sdiff_disjoint

/-- A region without blocks closes: its frames are returned while the table
still lists it. -/
theorem keeps_closeRegion
    (hc : c.InOrder) (hhas : Has c.arena.heap.regions slot region)
    (hused : region.used = 0) :
    Keeps (sharing origin) ⟨B, F, {c}, 0⟩
      (within Arena.framesPart (FramePool.giveBack region.base region.frames))
      fun result own' => result = .ok () ∧
        own' = ⟨B, F, {{ c with listing := .stale slot }}, 0⟩ := by
  have hthere {env : Share} {listing : Listing} {locks : Locks LockName} {arena : Arena} {g : ℕ}
      (h : Shared origin listing (⟨B, F, {c}, g⟩ + env) locks arena) :
      listing = .exact ∧ arena.Recorded c.ledger ∧ Has arena.heap.regions slot region := by
    obtain ⟨hheap, hmemory, -, hexact⟩ := h.known_self
    exact ⟨hexact.trans hc.exact, hc.recorded.of_frames hheap hmemory, hheap ▸ hhas⟩
  refine keeps_giveBack_of fun env listing locks arena h => ?_
  obtain ⟨rfl, -, hhas'⟩ := hthere h
  refine ⟨_, (h.framed.returnable hhas').frame, ?_⟩
  refine keeps_locked (Share.exact_singleton hc.exact) fun env' listing' locks' arena' h' => ?_
  obtain ⟨rfl, hrecorded', hhas'⟩ := hthere h'
  have hreturnable := h'.framed.returnable hhas'
  refine ⟨_, _, _, ?_, ⟨_, h'.close hrecorded' hhas' hused hreturnable.inside⟩,
    frees_closing.mono fun own' hown => ⟨rfl, hown⟩⟩
  have hreclaim := FramePool.perform_reclaim_of_leased hreturnable.pos hreturnable.inside
    hreturnable.leased
  have hsame : region.firstFrame (arena.settled .exact).frames = region.firstFrame arena'.frames :=
    (h.firstFrame_eq region).trans (h'.firstFrame_eq region).symm
  rw [hsame]
  exact hreclaim

/-! ## Reserving -/

theorem keeps_occupy (hexact : (⟨B, F, C, 0⟩ : Share).Exact) (index count : ℕ) :
    Keeps (sharing origin) ⟨B, F, C, 0⟩
      (within Arena.framesPart (FramePool.locked (FramePool.occupy index count)))
      (Settles (fun _ own' => own' = ⟨B, F + (Ico index (index + count)).val, C, 0⟩)
        ⟨B, F, C, 0⟩) := by
  refine keeps_locked hexact fun env listing locks arena h => ?_
  have hsound : arena.frames.Sound := h.framed.sound
  by_cases hinside : 0 < count ∧ index + count ≤ arena.frames.bitmap.units
  · by_cases hfree : Disjoint arena.frames.leasedFrames (Ico index (index + count))
    · refine ⟨_, _, _, FramePool.perform_occupy_of_free hsound hinside.1 hinside.2 hfree,
        ⟨listing, h.take hinside.2 hfree⟩, (frees_frames ?_).mono fun own' hown => hown⟩
      exact hexact.calm
    · exact ⟨_, _, _, FramePool.perform_occupy_of_busy hsound hinside.1 hinside.2 hfree,
        ⟨listing, h⟩, frees_refused hexact _⟩
  · exact ⟨_, _, _, FramePool.perform_occupy_of_outside hsound hinside,
      ⟨listing, h⟩, frees_refused hexact _⟩

/-- A reservation adds a run of frames to what its context owns, or is
refused. -/
theorem keeps_reserve (hexact : (⟨B, F, C, 0⟩ : Share).Exact) (pa : PhysAddr) (count : ℕ) :
    Keeps (sharing origin) ⟨B, F, C, 0⟩ (within Arena.framesPart (FramePool.reserve pa count))
      (Settles (fun _ own' => ∃ index, origin.frameIndex? pa = some index ∧
        own' = ⟨B, F + (Ico index (index + count)).val, C, 0⟩) ⟨B, F, C, 0⟩) := by
  rw [FramePool.reserve, within_bind]
  refine Keeps.bind (keeps_inspectFrames fun env listing locks arena h => ?_)
  rw [h.frameIndex?_eq]
  cases hframe : origin.frameIndex? pa with
  | none => exact keeps_done rfl
  | some index =>
      simp only [within_bind]
      refine Keeps.bind ((keeps_occupy hexact index count).mono fun result own' hpost => ?_)
      rcases hpost.cases with ⟨-, rfl, hown⟩ | ⟨error, rfl, hown⟩
      · exact keeps_report ⟨index, rfl, hown⟩
      · exact hown

end Frames

end KernelMemory
