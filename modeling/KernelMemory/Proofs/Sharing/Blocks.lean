import KernelMemory.Proofs.Sharing.Frames

/-!
# Allocating and freeing while others work

The operations of the heap keep to the shares of their contexts.  A context that
holds the heap lock knows table, maps and counters, whatever others do with
frames, so its sections act as they would alone.  An allocation adds its block
to what the context owns, and a free of an owned block succeeds.

A heap that grows adopts frames that it has leased as any context would
(`keeps_adopt`); a heap that gives regions back closes them one by one, and
clears their slots (`keeps_clear`).
-/

namespace KernelMemory

open Arena Finset Program RegionTable

variable {origin : FramePool} {env : Share} {locks : Locks LockName} {arena : Arena}
variable {B : Multiset Block} {F : Multiset ℕ} {c : Custody}
variable {units align slot first index : ℕ} {region : Region}

/-! ## Sections under the heap lock -/

theorem keeps_edit
    {α : Type} {body : Section Arena α} {post : Result α → Share → Prop}
    (hlisting : c.listing = .exact)
    (h : ∀ env locks arena, Shared origin .exact (⟨B, F, {c}, 0⟩ + env) locks arena →
      ∃ result arena', body.perform arena = (result, arena') ∧ arena'.frames = arena.frames ∧
        arena'.Framed (F + env.frames).toFinset ∧ (∀ b, arena.Houses b → arena'.Houses b) ∧
        post result ⟨B, F, {⟨arena', c.ledger, .exact⟩}, 0⟩) :
    Keeps (sharing origin) ⟨B, F, {c}, 0⟩ (critical body) post := by
  refine keeps_critical ?_
  rintro env locks arena ⟨listing, hshared⟩
  obtain ⟨-, -, hledger, hexact⟩ := hshared.known_self
  rw [hlisting] at hexact
  subst hexact
  obtain ⟨result, arena', hperform, hframes, hframed, hhouses, hpost⟩ := h env locks arena hshared
  refine ⟨result, arena', _, hperform, ⟨.exact, hshared.alter arena' ⟨rfl, rfl⟩ (by rw [hframes])
    (by rw [hframes]) rfl hshared.gates hshared.frames_nodup ?_ hframed ?_⟩, hpost⟩
  · intro b hb
    rw [← hledger, Multiset.mem_toFinset] at hb
    exact hhouses b (hshared.housed b hb)
  · exact fun _ _ hclosing => by cases hclosing

theorem Shared.recorded
    {listing : Listing} {g : ℕ} (h : Shared origin listing (⟨B, F, {c}, g⟩ + env) locks arena)
    (hc : c.InOrder) : arena.Recorded c.ledger :=
  hc.recorded.of_frames h.known_self.1 h.known_self.2.1

/-! ## Placing -/

/-- A block has been placed, but is not counted yet. -/
structure Custody.Placed (c : Custody) (pa : PhysAddr) (units : ℕ) : Prop where
  exact : c.listing = .exact
  units_lt : 16 * units < Word.count
  new : ⟨pa, units⟩ ∉ c.ledger
  recorded : ({ c.arena with heap := c.arena.heap.counting units } : Arena).Recorded
    (insert ⟨pa, units⟩ c.ledger)

theorem placed_of_placement
    {outside : Finset ℕ} {ledger : Finset Block} {m' : Memory} (hunits : 0 < units)
    (hframed : arena.Framed outside) (hrecorded : arena.Recorded ledger)
    (hhas : Has arena.heap.regions slot region)
    (hroom : region.reserved + region.used + units ≤ region.units)
    (hplacement : region.Placement arena.memory m' units align first) :
    ∃ arena' : Arena, arena' = { arena with
        memory := m'
        heap := arena.heap.setSlot slot (some (region.withBlock units)) } ∧
      arena'.Framed outside ∧ (∀ b, arena.Houses b → arena'.Houses b) ∧
      Custody.Placed ⟨arena', ledger, .exact⟩ (region.unitAddress first) units := by
  let arena' : Arena := { arena with
    memory := m'
    heap := arena.heap.setSlot slot (some (region.withBlock units)) }
  have hplaces : arena.Places { arena' with heap := arena'.heap.counting units } units align slot
      region first := ⟨hhas, hroom, hplacement, rfl, rfl⟩
  obtain ⟨hnew, hrecorded'⟩ := hplaces.recorded hunits hframed hrecorded
  have hlt := units_lt_count (hframed.valid slot region hhas) (n := units) (by omega)
  refine ⟨arena', rfl, (hplaces.framed hframed).of_eq rfl rfl rfl, fun b hb => ?_,
    rfl, hlt, hnew, hrecorded'⟩
  exact hb.replace (region.withBlock units) hhas rfl rfl rfl

theorem keeps_place (hreq : Region.Request units align) (hc : c.InOrder) :
    Keeps (sharing origin) ⟨B, F, {c}, 0⟩ (critical (place units align)) fun result own' =>
      ∃ c', own' = ⟨B, F, {c'}, 0⟩ ∧ (result = .ok none ∧ c'.InOrder ∨
        ∃ pa, result = .ok (some pa) ∧ c'.Placed pa units) := by
  refine keeps_edit hc.exact fun env locks arena h => ?_
  have hrecorded := h.recorded hc
  have hframed : arena.Framed (F + env.frames).toFinset := h.framed
  rcases place_cases hframed hreq with ⟨slot, region, first, m', hplaced, hrun⟩ | ⟨-, hrun⟩
  · obtain ⟨arena', rfl, hframed', hhouses, hplaced'⟩ := placed_of_placement hreq.units_pos hframed
      hrecorded hplaced.has hplaced.room hplaced.placement
    exact ⟨_, _, hrun, rfl, hframed', hhouses, _, rfl, Or.inr ⟨_, rfl, hplaced'⟩⟩
  · exact ⟨_, _, hrun, rfl, hframed, fun b hb => hb, _, rfl, Or.inl ⟨rfl, rfl, hrecorded⟩⟩

/-- The region of a slot has room for a block. -/
structure Custody.HasRoom (c : Custody) (slot units align : ℕ) : Prop where
  inOrder : c.InOrder
  room : ∃ region first, Has c.arena.heap.regions slot region ∧
    region.reserved + region.used + units ≤ region.units ∧
    region.Fits c.arena.memory units align first

theorem keeps_placeInSlot
    (hreq : Region.Request units align) (hc : c.HasRoom slot units align) :
    Keeps (sharing origin) ⟨B, F, {c}, 0⟩ (critical (placeInSlot slot units align))
      fun result own' => ∃ pa c', result = .ok pa ∧ own' = ⟨B, F, {c'}, 0⟩ ∧
        c'.Placed pa units := by
  obtain ⟨hinOrder, region, first, hhas, hroom, hfits⟩ := hc
  refine keeps_edit hinOrder.exact fun env locks arena h => ?_
  have hframed : arena.Framed (F + env.frames).toFinset := h.framed
  obtain ⟨hheap, hmemory, -⟩ := h.known_self
  rw [← hheap] at hhas
  rw [← hmemory] at hfits
  obtain ⟨first', m', hplacement, hrun⟩ :=
    exists_placeInSlot hreq hhas (hframed.valid slot region hhas) (hframed.visible slot region hhas)
      hroom hfits
  obtain ⟨arena', rfl, hframed', hhouses, hplaced⟩ := placed_of_placement hreq.units_pos hframed
    (h.recorded hinOrder) hhas hroom hplacement
  exact ⟨_, _, hrun, rfl, hframed', hhouses, _, _, rfl, rfl, hplaced⟩

/-! ## Growing -/

/-- The maps of a region on leased frames are written. -/
theorem keeps_format
    (region : Region) (hc : c.listing = .exact) (hstart : region.start = origin.frameStart index)
    (hpos : 0 < region.frames) :
    Keeps (sharing origin) ⟨B, F + (Ico index (index + region.frames)).val, {c}, 0⟩
      (critical (onMemory (region.format c.arena.heap.map))) fun result own' => result = .ok () ∧
        region.Addressable ∧ ∃ arena',
        own' = ⟨B, F + (Ico index (index + region.frames)).val, {⟨arena', c.ledger, .exact⟩}, 0⟩ ∧
        arena'.heap = c.arena.heap ∧ region.MapsWritten c.arena.memory arena'.memory
          (fun i => decide (i < region.reserved)) (fun _ => false) := by
  refine keeps_edit hc fun env locks arena h => ?_
  have hframed : arena.Framed (F + (Ico index (index + region.frames)).val + env.frames).toFinset :=
    h.framed
  obtain ⟨hheap, hmemory, -⟩ := h.known_self
  have hon : region.OnFrames arena.frames := by
    have hlast : index + region.frames - 1 ∈ arena.frames.leasedFrames := by
      refine hframed.outside_subset ?_
      rw [add_right_comm, toFinset_add_val, mem_union, mem_Ico]
      omega
    have hlt := (FramePool.mem_leasedFrames.1 hlast).1
    have hstart' : region.start = arena.frames.frameStart index := by
      rw [hstart, h.frameStart_eq]
    refine .of_start hstart' ?_
    rw [← hframed.sound.units]
    omega
  have haddressable := hon.addressable hframed.sound hpos
  have hvisible := hon.visible hframed.sound hframed.reaches hpos
  obtain ⟨m', hmaps, hformat⟩ := Region.perform_format haddressable hvisible arena.memory
  rw [hheap] at hformat
  exact ⟨_, _, perform_onMemory hformat, rfl, hframed.of_eq rfl rfl rfl, fun b hb => hb, rfl,
    haddressable, _, rfl, hheap, hmemory ▸ hmaps⟩

/-- A formatted region on frames that the context owns joins the table. -/
theorem keeps_adopt
    {before : Arena} (hc : c.listing = .exact) (hrecorded : before.Recorded c.ledger)
    (hheap : c.arena.heap = before.heap) (hempty : before.heap.regions[slot]? = some none)
    (hused : region.used = 0)
    (hmaps : region.MapsWritten before.memory c.arena.memory
      (fun i => decide (i < region.reserved)) (fun _ => false))
    (hstart : region.start = origin.frameStart index) (hpos : 0 < region.frames) :
    Keeps (sharing origin) ⟨B, F + (Ico index (index + region.frames)).val, {c}, 0⟩
      (update fun arena => { arena with heap := arena.heap.setSlot slot (some region) })
      fun result own' => result = .ok () ∧ ∃ c', own' = ⟨B, F, {c'}, 0⟩ ∧ c'.InOrder ∧
        before.Adopts c'.arena slot region := by
  refine keeps_update ?_
  rintro env locks arena ⟨listing, h⟩
  obtain ⟨hheap', hmemory, -, hexact⟩ := h.known_self
  rw [hc] at hexact
  subst hexact
  let arena' : Arena := { arena with heap := arena.heap.setSlot slot (some region) }
  have hbefore : arena.heap = before.heap := hheap'.trans hheap
  have hadopts : Adopts { arena with memory := before.memory } arena' slot region :=
    ⟨hbefore ▸ hempty, hused, hmemory ▸ hmaps, rfl⟩
  have hnodup := h.frames_nodup
  have hframed : arena.Framed (F + (Ico index (index + region.frames)).val + env.frames).toFinset :=
    h.framed
  rw [Share.frames_add, add_right_comm] at hnodup
  rw [add_right_comm] at hframed
  have hframed' : arena'.Framed (F + env.frames).toFinset := by
    rw [toFinset_eq_sdiff hnodup]
    refine hframed.adoptRegion hadopts.empty ?_ ?_ hpos hused rfl rfl rfl
    · rw [toFinset_add_val]
      exact subset_union_right
    · rw [hstart, h.frameStart_eq]
  have hrecorded' : arena'.Recorded c.ledger :=
    hadopts.recorded (hframed.of_eq rfl rfl rfl) hframed' (hrecorded.of_frames hbefore rfl)
  refine ⟨_, ⟨.exact, h.alter arena' ⟨rfl, rfl⟩ rfl rfl rfl h.gates
    (nodup_add_val.1 hnodup).1 hrecorded'.held hframed' ?_⟩, rfl, _, rfl, ⟨rfl, hrecorded'⟩, ?_⟩
  · exact fun _ _ hclosing => by cases hclosing
  · refine ⟨hempty, hused, hadopts.maps, ?_⟩
    rw [← hbefore]

/-- Growth leases a region and adopts it, or is refused. -/
theorem keeps_grow (hreq : Region.Request units align) (hc : c.InOrder) :
    Keeps (sharing origin) ⟨B, F, {c}, 0⟩ (grow units align) fun result own' =>
      ∃ c', own' = ⟨B, F, {c'}, 0⟩ ∧ ((∃ error, result = .refuse error) ∧ c'.InOrder ∨
        ∃ slot, result = .ok slot ∧ c'.HasRoom slot units align) := by
  refine Keeps.bind (keeps_inspectHeap ?_)
  cases hempty : c.arena.heap.emptySlot? with
  | none => exact Keeps.bind (keeps_report (keeps_done ⟨c, rfl, Or.inl ⟨⟨_, rfl⟩, hc⟩⟩))
  | some slot =>
      obtain ⟨count, hsize, -, hcount⟩ := hreq.framesFor_cases
      have hpos := hreq.framesFor_pos hsize
      simp only [hsize]
      refine Keeps.bind (keeps_done ?_)
      refine Keeps.bind ((keeps_lease (Share.exact_singleton hc.exact) count).mono ?_)
      intro result own' hleased
      rcases hleased.cases with ⟨pa, rfl, index, -, hpa, rfl⟩ | ⟨error, rfl, rfl⟩
      swap
      · exact ⟨c, rfl, Or.inl ⟨⟨error, rfl⟩, hc⟩⟩
      have hcreate : Region.create pa count = .ok ⟨pa, count, 0⟩ :=
        Region.create_eq pa (by rw [Word.count_eq]; omega)
      simp only [hcreate]
      refine Keeps.bind (keeps_done (Keeps.bind (keeps_inspectHeap ?_)))
      refine Keeps.bind (Keeps.outcome
        ((keeps_format ⟨pa, count, 0⟩ hc.exact hpa hpos).mono ?_))
      rintro result own' ⟨rfl, haddressable, arena', rfl, hheap, hmaps⟩
      simp only [haddressable.capacity_eq]
      refine Keeps.bind (keeps_done (Keeps.bind (keeps_report (Keeps.bind ?_))))
      refine (keeps_adopt (c := ⟨arena', c.ledger, .exact⟩) rfl hc.recorded hheap
        (Heap.emptySlot?_spec hempty).1 rfl hmaps hpa hpos).mono ?_
      rintro result own' ⟨rfl, c', rfl, hc', hadopts⟩
      obtain ⟨hroom, t, hfits⟩ := hadopts.room hreq hsize
      exact ⟨c', rfl, Or.inr ⟨slot, rfl, hc', _, t, hadopts.has, hroom, hfits⟩⟩

/-! ## Allocating -/

theorem keeps_placeOrGrow (hreq : Region.Request units align) (hc : c.InOrder) :
    Keeps (sharing origin) ⟨B, F, {c}, 0⟩ (placeOrGrow units align) fun result own' =>
      ∃ c', own' = ⟨B, F, {c'}, 0⟩ ∧ ((∃ error, result = .refuse error) ∧ c'.InOrder ∨
        ∃ pa, result = .ok pa ∧ c'.Placed pa units) := by
  refine Keeps.bind ((keeps_place hreq hc).mono ?_)
  rintro result own' ⟨c₁, rfl, ⟨rfl, hc₁⟩ | ⟨pa, rfl, hplaced⟩⟩
  · refine Keeps.bind ((keeps_grow hreq hc₁).mono ?_)
    rintro result own' ⟨c₂, rfl, ⟨⟨error, rfl⟩, hc₂⟩ | ⟨slot, rfl, hroom⟩⟩
    · exact ⟨c₂, rfl, Or.inl ⟨⟨error, rfl⟩, hc₂⟩⟩
    · refine (keeps_placeInSlot hreq hroom).mono ?_
      rintro result own' ⟨pa, c₃, rfl, rfl, hplaced⟩
      exact ⟨c₃, rfl, Or.inr ⟨pa, rfl, hplaced⟩⟩
  · exact keeps_pure ⟨c₁, rfl, Or.inr ⟨pa, rfl, hplaced⟩⟩

theorem keeps_countPlaced {pa : PhysAddr} (hc : c.Placed pa units) :
    Keeps (sharing origin) ⟨B, F, {c}, 0⟩ (critical (countPlaced units)) fun result own' =>
      result = .ok () ∧ ∃ arena', own' = ⟨B, F, {⟨arena', c.ledger, .exact⟩}, 0⟩ ∧
        arena'.Recorded (insert ⟨pa, units⟩ c.ledger) := by
  refine keeps_edit hc.exact fun env locks arena h => ?_
  obtain ⟨hheap, hmemory, -⟩ := h.known_self
  let arena' : Arena := { arena with heap := arena.heap.counting units }
  have hframed : arena'.Framed (F + env.frames).toFinset := Framed.of_eq h.framed rfl rfl rfl
  have hcount : (countPlaced units).perform arena = (.ok (), arena') := by
    rw [countPlaced, Section.perform_get_bind,
      Section.perform_lift_bind_ok _ _ (Heap.countPlaced_eq hc.units_lt)]
    rfl
  refine ⟨_, arena', hcount, rfl, hframed, fun b hb => hb, rfl, arena', rfl, ?_⟩
  exact hc.recorded.of_frames (congrArg (·.counting units) hheap) hmemory

/-- The heap lock is freed with a new block of the context's own. -/
theorem frees_with_block
    {b : Block} {ledger : Finset Block} (hb : b ∉ ledger)
    (hrecorded : arena.Recorded (insert b ledger)) :
    (sharing origin).Frees ⟨0, F, {⟨arena, ledger, .exact⟩}, 0⟩ .heap (· = ⟨{b}, F, 0, 0⟩) := by
  refine frees_heap rfl hrecorded fun rest hnodup hledger => ?_
  change ((0 : Multiset Block) + rest).toFinset = ledger at hledger
  rw [zero_add] at hnodup hledger
  rw [Multiset.singleton_add, Multiset.nodup_cons, Multiset.toFinset_cons, hledger]
  rw [← hledger, Multiset.mem_toFinset] at hb
  exact ⟨⟨hb, hnodup⟩, rfl⟩

theorem frees_inOrder (hc : c.InOrder) :
    (sharing origin).Frees ⟨B, F, {c}, 0⟩ .heap (· = ⟨B, F, 0, 0⟩) :=
  frees_heap hc.exact hc.recorded fun _ hnodup hledger => ⟨hnodup, hledger⟩

/-- An allocation adds its block to what its context owns, or is refused. -/
theorem keeps_allocAligned (size align : UInt64) :
    Keeps (sharing origin) 0 (allocAligned size align)
      (Settles (fun pa own' => own' = ⟨{⟨pa, ceilDiv size.toNat 16⟩}, 0, 0, 0⟩) 0) := by
  have hlimit : Parameters.frameSize < align ↔ ¬ align.toNat ≤ 4096 := by
    rw [UInt64.lt_iff_toNat_lt, Nat.not_le]
    rfl
  rw [allocAligned]
  split_ifs with hzero hbad
  · exact keeps_done rfl
  · exact keeps_done rfl
  · rw [hlimit, not_or, not_not, not_not] at hbad
    have hreq := request_of_layout hzero hbad.1 hbad.2
    refine Keeps.bind (Keeps.withLock (takes_heap.mono ?_))
    rintro own' ⟨c, rfl, hc, -⟩
    refine Keeps.bind (Keeps.outcome ((keeps_placeOrGrow hreq hc).mono ?_))
    rintro result own' ⟨c', rfl, ⟨⟨error, rfl⟩, hc'⟩ | ⟨pa, rfl, hplaced⟩⟩
    · refine keeps_pure ((frees_inOrder hc').mono ?_)
      rintro own'' rfl
      exact Keeps.bind (keeps_report (keeps_done rfl))
    · refine Keeps.bind ((keeps_countPlaced hplaced).mono ?_)
      rintro result own' ⟨rfl, arena', rfl, hrecorded⟩
      refine keeps_pure ((frees_with_block hplaced.new hrecorded).mono ?_)
      rintro own'' rfl
      exact Keeps.bind (keeps_report (keeps_pure rfl))

/-! ## Freeing -/

theorem keeps_remove {b : Block} (hc : c.InOrder) (hb : b ∈ c.ledger) :
    Keeps (sharing origin) ⟨B, F, {c}, 0⟩ (critical (remove b.address)) fun result own' =>
      ∃ n arena', result = .ok (some n) ∧ 16 * n < Word.count ∧
        own' = ⟨B, F, {⟨arena', c.ledger, .exact⟩}, 0⟩ ∧ arena'.Recorded (c.ledger.erase b) := by
  refine keeps_edit hc.exact fun env locks arena h => ?_
  have hframed : arena.Framed (F + env.frames).toFinset := h.framed
  have hrecorded := h.recorded hc
  rcases remove_cases hframed b.address with
    ⟨arena', slot, first, last, region, hhas, hpa, hremoval, hcount, -, hframes, hheap, hrun⟩ |
    ⟨m', slot, first, last, region, hhas, -, hremoval, hheld, -⟩ | ⟨hnone, -⟩
  · obtain ⟨b', hb', haddress, herased⟩ := hrecorded.freed hframed hhas hpa hremoval hheap
    have hsame : b' = b := by
      refine hrecorded.eq_of_start hb' hb ?_
      rw [Block.start, Block.start, haddress]
    subst hsame
    refine ⟨_, arena', hrun, hframes, framed_of_freed hframed hhas hframes hheap, fun d hd => ?_,
      _, arena', rfl, hcount, rfl, herased⟩
    exact hd.replace (region.withoutBlock (last - first)) hhas rfl rfl (by rw [hheap]; rfl)
  · have := hrecorded.held_of_extent hframed hhas hremoval.extent
    omega
  · obtain ⟨slot, region, first, hhas, haddress, hlow, hlt, hhead⟩ :=
      hrecorded.exists_head hframed hb
    rw [hnone slot region first hhas haddress hlow hlt] at hhead
    cases hhead

theorem frees_without_block
    {b : Block} {ledger : Finset Block} (hrecorded : arena.Recorded (ledger.erase b)) :
    (sharing origin).Frees ⟨{b}, F, {⟨arena, ledger, .exact⟩}, 0⟩ .heap (· = ⟨0, F, 0, 0⟩) := by
  refine frees_heap rfl hrecorded fun rest hnodup hledger => ?_
  change (({b} : Multiset Block) + rest).toFinset = ledger at hledger
  rw [Multiset.singleton_add, Multiset.nodup_cons] at hnodup
  rw [Multiset.singleton_add, Multiset.toFinset_cons] at hledger
  rw [zero_add, ← hledger, erase_insert (fun hb => hnodup.1 (Multiset.mem_toFinset.1 hb))]
  exact ⟨hnodup.2, rfl⟩

theorem keeps_free (b : Block) :
    Keeps (sharing origin) ⟨{b}, 0, 0, 0⟩ (free b.address)
      fun result own' => result = .ok () ∧ own' = 0 := by
  refine Keeps.bind (Keeps.withLock (takes_heap.mono ?_))
  rintro own' ⟨c, rfl, hc, hb⟩
  refine (keeps_remove hc (hb b (Multiset.mem_singleton_self b))).mono ?_
  rintro result own' ⟨n, arena', rfl, hcount, rfl, hrecorded⟩
  refine (frees_without_block hrecorded).mono ?_
  rintro own'' rfl
  simp only [Heap.mul_unitBytes hcount]
  exact Keeps.bind (keeps_done (keeps_report ⟨rfl, rfl⟩))

/-! ## Releasing -/

theorem keeps_clear
    (hc : c.InOrder) (hhas : Has c.arena.heap.regions slot region) (hused : region.used = 0) :
    Keeps (sharing origin) ⟨B, F, {{ c with listing := .stale slot }}, 0⟩
      (update fun arena => { arena with heap := arena.heap.setSlot slot none })
      fun result own' => result = .ok () ∧ ∃ c', own' = ⟨B, F, {c'}, 0⟩ ∧ c'.InOrder := by
  refine keeps_update ?_
  rintro env locks arena ⟨listing, h⟩
  obtain ⟨hheap, hmemory, -, rfl⟩ := h.known_self
  let arena' : Arena := { arena with heap := arena.heap.setSlot slot none }
  have hrecorded : arena.Recorded c.ledger := hc.recorded.of_frames hheap hmemory
  have hreleased : Released arena arena' [slot] 1 :=
    .drop (hheap ▸ hhas) hused rfl rfl rfl rfl
  have hrecorded' := hreleased.recorded hrecorded
  refine ⟨_, ⟨.exact, h.alter arena' ⟨rfl, rfl⟩ rfl rfl rfl h.gates h.frames_nodup
    hrecorded'.held h.framed ?_⟩, rfl, _, rfl, rfl, hrecorded'⟩
  exact fun _ _ hclosing => by cases hclosing

theorem keeps_releaseSlot (hc : c.InOrder) (slot : ℕ) :
    Keeps (sharing origin) ⟨B, F, {c}, 0⟩ (releaseSlot slot) fun result own' =>
      ∃ gone c', result = .ok gone ∧ own' = ⟨B, F, {c'}, 0⟩ ∧ c'.InOrder := by
  refine Keeps.bind (keeps_inspectHeap (f := (·.region? slot)) ?_)
  cases hregion : c.arena.heap.region? slot with
  | none => exact keeps_pure ⟨false, c, rfl, rfl, hc⟩
  | some region =>
      have hhas := region?_eq_some_iff.1 hregion
      simp only
      split_ifs with hused
      · refine Keeps.bind (Keeps.outcome ((keeps_closeRegion hc hhas hused).mono ?_))
        rintro result own' ⟨rfl, rfl⟩
        refine Keeps.bind (keeps_report (Keeps.bind ((keeps_clear hc hhas hused).mono ?_)))
        rintro result own' ⟨rfl, c', rfl, hc'⟩
        exact keeps_pure ⟨true, c', rfl, rfl, hc'⟩
      · exact keeps_pure ⟨false, c, rfl, rfl, hc⟩

theorem keeps_releaseSlots (hc : c.InOrder) (slots : List ℕ) :
    Keeps (sharing origin) ⟨B, F, {c}, 0⟩ (releaseSlots slots) fun result own' =>
      ∃ n c', result = .ok n ∧ own' = ⟨B, F, {c'}, 0⟩ ∧ c'.InOrder := by
  induction slots generalizing c with
  | nil => exact keeps_pure ⟨0, c, rfl, rfl, hc⟩
  | cons slot rest ih =>
      refine Keeps.bind ((keeps_releaseSlot hc slot).mono ?_)
      rintro result own' ⟨gone, c₁, rfl, rfl, hc₁⟩
      refine Keeps.bind ((ih hc₁).mono ?_)
      rintro result own' ⟨n, c₂, rfl, rfl, hc₂⟩
      exact keeps_pure ⟨_, c₂, rfl, rfl, hc₂⟩

/-- A release of the regions without blocks delivers. -/
theorem keeps_releaseEmptyRegions :
    Keeps (sharing origin) 0 releaseEmptyRegions
      fun result own' => (∃ n, result = .ok n) ∧ own' = 0 := by
  refine Keeps.withLock (takes_heap.mono ?_)
  rintro own' ⟨c, rfl, hc, -⟩
  refine (keeps_releaseSlots hc _).mono ?_
  rintro result own' ⟨n, c', rfl, rfl, hc'⟩
  exact (frees_inOrder hc').mono fun own'' hown => ⟨⟨n, rfl⟩, hown⟩

end KernelMemory
