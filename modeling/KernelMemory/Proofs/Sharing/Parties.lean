import KernelMemory.Proofs.Sharing.Blocks
import KernelMemory.Proofs.World.Clients

/-!
# Parties of clients

Any number of clients that call one heap and the pool under it at the same
time.  They change over at the operations on locks and around each section of
the frame lock; which client goes on is up to nobody.  A client gives up what
it frees or returns when it starts the call, and has what it obtained when the
call has ended.

`Party.Held` says what each client owns in the middle of its call.  The main
statement `Party.Reachable.held` says that this can be said in every reachable
party.
-/

namespace KernelMemory

open Arena Finset Program RegionTable

/-- The indices of `count` frames from an address on. -/
def FramePool.runAt (pool : FramePool) (pa : PhysAddr) (count : ℕ) : Finset ℕ :=
  match pool.frameIndex? pa with
  | some index => Ico index (index + count)
  | none => ∅

theorem FramePool.runAt_eq
    {pool : FramePool} {pa : PhysAddr} {index : ℕ} (h : pool.frameIndex? pa = some index)
    (count : ℕ) : pool.runAt pa count = Ico index (index + count) := by
  simp only [runAt, h]

/-! ## What a call moves -/

namespace Call

/-- The blocks that a call gives up. -/
def givenBlocks (blocks : Finset Block) : Call → Finset Block
  | .free pa => blocks.filter (·.address = pa)
  | _ => ∅

def givenFrames (pool : FramePool) : Call → Finset ℕ
  | .giveBackFrames pa count => pool.runAt pa count
  | _ => ∅

/-- The block that a call obtains. -/
def gainedBlocks : (call : Call) → Result call.Answer → Finset Block
  | .allocAligned size _, .ok pa => {⟨pa, ceilDiv size.toNat 16⟩}
  | .alloc size, .ok pa => {⟨pa, ceilDiv size.toNat 16⟩}
  | _, _ => ∅

def gainedFrames (pool : FramePool) : (call : Call) → Result call.Answer → Finset ℕ
  | .leaseFrames count, .ok pa => pool.runAt pa count
  | .reserveFrames pa count, .ok () => pool.runAt pa count
  | _, _ => ∅

/-- The block of an address, if no other has it. -/
theorem givenBlocks_free
    {blocks : Finset Block} {b : Block} (hb : b ∈ blocks)
    (hunique : ∀ c ∈ blocks, c.address = b.address → c = b) :
    (Call.free b.address).givenBlocks blocks = {b} := by
  ext c
  rw [givenBlocks, mem_filter, mem_singleton]
  constructor
  · exact fun hc => hunique c hc.1 hc.2
  · rintro rfl
    exact ⟨hb, rfl⟩

/-- A call that frees or returns succeeds. -/
def Delivers : (call : Call) → Result call.Answer → Prop
  | .free _, result => result = .ok ()
  | .giveBackFrames _ _, result => result = .ok ()
  | _, _ => True

end Call

/-! ## Clients -/

/-- One of several clients. -/
structure Client where
  /-- The blocks that it obtained and has not freed. -/
  blocks : Finset Block
  /-- The frames that it leased or reserved and has not returned. -/
  frames : Finset ℕ
  /-- What is left of the call that it is in the middle of. -/
  task : Option (Σ call : Call, Program LockName Arena call.Answer)

namespace Client

def Idle (x : Client) : Prop := x.task = none

/-- The calls of a client: it frees only blocks and returns only frames that it
obtained and still has. -/
def Permits (x : Client) (pool : FramePool) : Call → Prop
  | .alloc _ | .allocAligned _ _ | .releaseEmptyRegions => True
  | .leaseFrames _ | .reserveFrames _ _ => True
  | .free pa => ∃ b ∈ x.blocks, b.address = pa
  | .giveBackFrames pa count =>
      (pool.runAt pa count).Nonempty ∧ pool.runAt pa count ⊆ x.frames
  | .allocPointer _ | .freePointer _ | .allocLayout _ | .dealloc _ | .stats | .frameStats => False

def start (x : Client) (pool : FramePool) (call : Call) : Client where
  blocks := x.blocks \ call.givenBlocks x.blocks
  frames := x.frames \ call.givenFrames pool
  task := some ⟨call, call.program⟩

def goOn (x : Client) (call : Call) (rest : Program LockName Arena call.Answer) : Client :=
  { x with task := some ⟨call, rest⟩ }

def finish (x : Client) (pool : FramePool) (call : Call) (result : Result call.Answer) :
    Client where
  blocks := x.blocks ∪ call.gainedBlocks result
  frames := x.frames ∪ call.gainedFrames pool result
  task := none

/-- What a client has outside its call. -/
def holdings (x : Client) : Share := ⟨x.blocks.val, x.frames.val, 0, 0⟩

end Client

/-- A machine and the clients that use it. -/
structure Party (n : ℕ) where
  machine : Machine LockName Arena
  clients : Fin n → Client

namespace Party

variable {n : ℕ}

abbrev arena (p : Party n) : Arena := p.machine.state

abbrev pool (p : Party n) : FramePool := p.arena.frames

abbrev regions (p : Party n) : RegionTable := p.arena.heap.regions

def set (p : Party n) (i : Fin n) (x : Client) : Party n :=
  { p with clients := Function.update p.clients i x }

/-- A client takes a turn, or ends its call. -/
inductive Works (p : Party n) : Party n → Prop
  | turn {i : Fin n} {call : Call} {program rest : Program LockName Arena call.Answer}
      {machine : Machine LockName Arena} (running : (p.clients i).task = some ⟨call, program⟩)
      (turn : program.turn .frames p.machine = some (rest, machine)) :
      Works p ⟨machine, (p.set i ((p.clients i).goOn call rest)).clients⟩
  | finish {i : Fin n} {call : Call} {result : Result call.Answer}
      (ended : (p.clients i).task = some ⟨call, .done result⟩) :
      Works p (p.set i ((p.clients i).finish p.pool call result))

/-- A client starts a call, or goes on with one. -/
inductive Step (p : Party n) : Party n → Prop
  | start {i : Fin n} {call : Call} (idle : (p.clients i).Idle)
      (permitted : (p.clients i).Permits p.pool call) :
      Step p (p.set i ((p.clients i).start p.pool call))
  | work {p' : Party n} (works : p.Works p') : Step p p'

/-- Clients that have nothing, over a fresh heap and a fresh pool. -/
structure Fresh (p : Party n) : Prop where
  pool : ∃ base totalMemory storage, FramePool.create base totalMemory storage = .ok p.pool
  heap : ∃ map, p.arena.heap = Heap.empty map
  reaches : p.arena.heap.map.Reaches p.pool
  locks : ∀ name, p.machine.locks.IsFree name
  clients : ∀ i, p.clients i = ⟨∅, ∅, none⟩

inductive Reachable : Party n → Prop
  | fresh {p : Party n} (h : p.Fresh) : Reachable p
  | step {p p' : Party n} (h : Reachable p) (step : p.Step p') : Reachable p'

end Party

/-! ## Calls and shares -/

/-- How a call ends: the client owns what it obtained, and a call that frees or
returns has succeeded. -/
structure Call.Ends
    (origin : FramePool) (call : Call) (result : Result call.Answer) (own : Share) : Prop where
  owned : own = ⟨(call.gainedBlocks result).val, (call.gainedFrames origin result).val, 0, 0⟩
  delivers : call.Delivers result

/-- Every call of a client keeps to its share. -/
theorem Call.keeps
    {origin : FramePool} {x : Client} (hsound : origin.Sound) (call : Call)
    (hunique : ∀ b ∈ x.blocks, ∀ c ∈ x.blocks, b.address = c.address → b = c)
    (hpermits : x.Permits origin call) :
    Keeps (sharing origin) ⟨(call.givenBlocks x.blocks).val, (call.givenFrames origin).val, 0, 0⟩
      call.program (call.Ends origin) := by
  have hexact : (⟨0, 0, 0, 0⟩ : Share).Exact := Share.exact_of_custody rfl
  have halloc (size align : UInt64) : Keeps (sharing origin) 0 (Arena.allocAligned size align)
      ((Call.allocAligned size align).Ends origin) := by
    refine (keeps_allocAligned size align).mono fun result own' hpost => ?_
    rcases hpost.cases with ⟨pa, rfl, hown⟩ | ⟨error, rfl, hown⟩
    · exact ⟨hown, trivial⟩
    · exact ⟨hown, trivial⟩
  cases call with
  | allocAligned size align => exact halloc size align
  | alloc size =>
      refine (halloc size _).mono fun result own' hends => ?_
      cases result with
      | ok pa => exact ⟨hends.owned, trivial⟩
      | error failure => exact ⟨hends.owned, trivial⟩
  | free pa =>
      obtain ⟨b, hb, rfl⟩ := hpermits
      rw [givenBlocks_free hb fun c hc => hunique c hc b hb]
      exact (keeps_free b).mono fun result own' hpost => ⟨hpost.2, hpost.1⟩
  | releaseEmptyRegions =>
      exact keeps_releaseEmptyRegions.mono fun result own' hpost => ⟨hpost.2, trivial⟩
  | leaseFrames count =>
      refine (keeps_lease hexact count).mono fun result own' hpost => ?_
      rcases hpost.cases with ⟨pa, rfl, index, hindex, hpa, hown⟩ | ⟨error, rfl, hown⟩
      · have hframe := hsound.frameIndex?_eq_some_iff.2 ⟨hindex, hpa⟩
        refine ⟨?_, trivial⟩
        simp only [gainedFrames, FramePool.runAt_eq hframe]
        rw [hown, zero_add]
        rfl
      · exact ⟨hown, trivial⟩
  | giveBackFrames pa count =>
      obtain ⟨⟨i, hi⟩, -⟩ := hpermits
      cases hframe : origin.frameIndex? pa with
      | none => simp [FramePool.runAt, hframe] at hi
      | some index =>
          have hrun := FramePool.runAt_eq hframe count
          rw [hrun, mem_Ico] at hi
          have hreturn := keeps_giveBack hexact hframe (by omega : 0 < count)
          rw [zero_add] at hreturn
          simp only [givenFrames, hrun]
          exact hreturn.mono fun result own' hpost => ⟨hpost.2, hpost.1⟩
  | reserveFrames pa count =>
      refine (keeps_reserve hexact pa count).mono fun result own' hpost => ?_
      rcases hpost.cases with ⟨-, rfl, index, hframe, hown⟩ | ⟨error, rfl, hown⟩
      · refine ⟨?_, trivial⟩
        simp only [gainedFrames, FramePool.runAt_eq hframe]
        rw [hown, zero_add]
        rfl
      · exact ⟨hown, trivial⟩
  | allocPointer size => exact hpermits.elim
  | freePointer pointer => exact hpermits.elim
  | allocLayout layout => exact hpermits.elim
  | dealloc pointer => exact hpermits.elim
  | stats => exact hpermits.elim
  | frameStats => exact hpermits.elim

/-! ## What clients own in the middle of their calls -/

/-- What a client may own besides its holdings: nothing between calls, and in a
call what lets it go on. -/
def Client.Fits (x : Client) (origin : FramePool) (own : Share) : Prop :=
  match x.task with
  | none => own = 0
  | some ⟨call, program⟩ => own.Calm ∧ Keeps (sharing origin) own program (call.Ends origin)

namespace Party

variable {n : ℕ} {p p' : Party n} {origin : FramePool} {own : Fin n → Share} {i : Fin n}

/-- What all clients have together. -/
def total (p : Party n) (own : Fin n → Share) : Share :=
  ∑ i, ((p.clients i).holdings + own i)

def others (p : Party n) (own : Fin n → Share) (i : Fin n) : Share :=
  ∑ j ∈ univ.erase i, ((p.clients j).holdings + own j)

theorem blocks_total (p : Party n) (own : Fin n → Share) :
    (p.total own).blocks = ∑ i, ((p.clients i).blocks.val + (own i).blocks) :=
  map_sum Share.blocksHom _ _

theorem frames_total (p : Party n) (own : Fin n → Share) :
    (p.total own).frames = ∑ i, ((p.clients i).frames.val + (own i).frames) :=
  map_sum Share.framesHom _ _

theorem custody_total (p : Party n) (own : Fin n → Share) :
    (p.total own).custody = ∑ i, (own i).custody :=
  (map_sum Share.custodyHom _ _).trans (sum_congr rfl fun _ _ => zero_add _)

theorem gates_total (p : Party n) (own : Fin n → Share) :
    (p.total own).gates = ∑ i, (own i).gates :=
  (map_sum Share.gatesHom _ _).trans (sum_congr rfl fun _ _ => zero_add _)

theorem total_eq (p : Party n) (own : Fin n → Share) (i : Fin n) :
    p.total own = own i + ((p.clients i).holdings + p.others own i) := by
  rw [total, others, ← add_sum_erase univ _ (mem_univ i), add_assoc]
  exact add_left_comm _ _ _

theorem total_set (p : Party n) (own : Fin n → Share) (i : Fin n) (x : Client) (s : Share) :
    (p.set i x).total (Function.update own i s) = s + (x.holdings + p.others own i) := by
  rw [total_eq _ _ i, others, others]
  simp only [set, Function.update_self]
  congr 2
  refine sum_congr rfl fun j hj => ?_
  rw [Function.update_of_ne (ne_of_mem_erase hj), Function.update_of_ne (ne_of_mem_erase hj)]

/-- The shares of the clients describe the machine. -/
structure Held (p : Party n) (origin : FramePool) (own : Fin n → Share) : Prop where
  shared : ∃ listing, Shared origin listing (p.total own) p.machine.locks p.arena
  fits : ∀ i, (p.clients i).Fits origin (own i)

theorem Held.set
    {x : Client} {s : Share} {machine : Machine LockName Arena} (h : p.Held origin own)
    (hshared : ∃ listing, Shared origin listing (s + (x.holdings + p.others own i))
      machine.locks machine.state) (hfits : x.Fits origin s) :
    Held ⟨machine, (p.set i x).clients⟩ origin (Function.update own i s) := by
  refine ⟨?_, fun j => ?_⟩
  · rw [← p.total_set own i x s] at hshared
    exact hshared
  · by_cases hj : j = i
    · subst hj
      simpa only [Party.set, Function.update_self] using hfits
    · simpa only [Party.set, Function.update_of_ne hj] using h.fits j

/-- A part of the blocks and frames of a client moves into its call. -/
theorem holdings_sdiff {x : Client} {blocks : Finset Block} {frames : Finset ℕ}
    (hblocks : blocks ⊆ x.blocks) (hframes : frames ⊆ x.frames) (env : Share) :
    ⟨blocks.val, frames.val, 0, 0⟩ +
      (⟨(x.blocks \ blocks).val, (x.frames \ frames).val, 0, 0⟩ + env) = x.holdings + env := by
  rw [← add_assoc]
  congr 1
  ext1
  · change blocks.val + (x.blocks \ blocks).val = x.blocks.val
    rw [sdiff_val, add_comm]
    exact Multiset.sub_add_cancel (val_le_iff.2 hblocks)
  · change frames.val + (x.frames \ frames).val = x.frames.val
    rw [sdiff_val, add_comm]
    exact Multiset.sub_add_cancel (val_le_iff.2 hframes)
  · rfl
  · rfl

theorem disjoint_of_nodup
    {α : Type} {s t : Finset α} {rest : Multiset α} (h : (t.val + (s.val + rest)).Nodup) :
    Disjoint s t := by
  rw [← add_assoc, add_comm t.val] at h
  exact disjoint_val.1 (Multiset.disjoint_of_nodup_add (Multiset.nodup_add.1 h).1)

/-- What a call obtained joins what its client has. -/
theorem holdings_union {x : Client} {blocks : Finset Block} {frames : Finset ℕ}
    (hblocks : Disjoint x.blocks blocks) (hframes : Disjoint x.frames frames) (env : Share) :
    ⟨blocks.val, frames.val, 0, 0⟩ + (x.holdings + env) =
      0 + (⟨(x.blocks ∪ blocks).val, (x.frames ∪ frames).val, 0, 0⟩ + env) := by
  rw [zero_add, ← add_assoc, add_comm (⟨blocks.val, _, _, _⟩ : Share),
    ← disjUnion_eq_union _ _ hblocks, ← disjUnion_eq_union _ _ hframes]
  rfl

/-! ## Steps -/

theorem runAt_eq
    {listing : Listing} {total : Share} {locks : Locks LockName} {arena : Arena}
    (h : Shared origin listing total locks arena) : arena.frames.runAt = origin.runAt := by
  funext pa count
  rw [FramePool.runAt, FramePool.runAt, h.frameIndex?_eq]

theorem mem_total_blocks {b : Block} (hb : b ∈ (p.clients i).blocks) :
    b ∈ (p.total own).blocks := by
  rw [p.total_eq own i]
  exact Multiset.mem_add.2 (Or.inr (Multiset.mem_add.2 (Or.inl hb)))

/-- No client has two blocks at one address. -/
theorem Held.unique
    (h : p.Held origin own) {b c : Block} (hb : b ∈ (p.clients i).blocks)
    (hc : c ∈ (p.clients i).blocks) (heq : b.address = c.address) : b = c := by
  obtain ⟨listing, hshared⟩ := h.shared
  have hbpos := hshared.units_pos b (mem_total_blocks hb)
  have hcpos := hshared.units_pos c (mem_total_blocks hc)
  by_contra hne
  have hapart := hshared.apart b (mem_total_blocks hb) c (mem_total_blocks hc) hne
  simp only [Block.Apart, Block.stop, Block.start, heq] at hapart
  omega

theorem Held.start
    {call : Call} (h : p.Held origin own) (hsound : origin.Sound) (hidle : (p.clients i).Idle)
    (hpermits : (p.clients i).Permits p.pool call) :
    ∃ own', Held (p.set i ((p.clients i).start p.pool call)) origin own' := by
  obtain ⟨listing, hshared⟩ := h.shared
  have hrun : p.pool.runAt = origin.runAt := runAt_eq hshared
  have hpermits' : (p.clients i).Permits origin call := by
    unfold Client.Permits at hpermits ⊢
    rwa [hrun] at hpermits
  have hgiven : call.givenFrames p.pool = call.givenFrames origin := by
    unfold Call.givenFrames
    rw [hrun]
  have hblocks : call.givenBlocks (p.clients i).blocks ⊆ (p.clients i).blocks := by
    cases call with
    | free pa => exact filter_subset _ _
    | _ => exact empty_subset _
  have hframes : call.givenFrames origin ⊆ (p.clients i).frames := by
    cases call with
    | giveBackFrames pa count => exact hpermits'.2
    | _ => exact empty_subset _
  have hown := h.fits i
  rw [Client.Fits, hidle] at hown
  rw [p.total_eq own i, hown, zero_add, ← holdings_sdiff hblocks hframes] at hshared
  have hkeeps := call.keeps hsound (fun b hb c hc => h.unique hb hc) hpermits'
  refine ⟨_, h.set (x := (p.clients i).start p.pool call) ⟨listing, ?_⟩ ⟨?_, hkeeps⟩⟩
  · rw [Client.start, Client.holdings, hgiven]
    exact hshared
  · exact (Share.exact_of_custody rfl).calm

/-- Between two turns of a client nobody sees a stale listing. -/
theorem calm_of_rests
    {s : Share} {call : Call} {rest : Program LockName Arena call.Answer}
    (hkeeps : Keeps (sharing origin) s rest (call.Ends origin))
    (hrests : Rests (sharing origin) s rest) : s.Calm := by
  cases rest with
  | done result =>
      have hends : call.Ends origin result s := hkeeps
      rw [hends.owned]
      exact (Share.exact_of_custody rfl).calm
  | step act next => exact hrests.elim
  | acquire name next => exact hrests.1.calm
  | tryAcquire name next => exact hrests.elim
  | release name next => exact hrests
  | emit event next => exact hrests.elim

theorem Held.turn
    {call : Call} {program rest : Program LockName Arena call.Answer}
    {machine : Machine LockName Arena} (h : p.Held origin own)
    (hrunning : (p.clients i).task = some ⟨call, program⟩)
    (hturn : program.turn .frames p.machine = some (rest, machine)) :
    ∃ own', Held ⟨machine, (p.set i ((p.clients i).goOn call rest)).clients⟩ origin own' := by
  have hfits := h.fits i
  rw [Client.Fits, hrunning] at hfits
  have hshared := h.shared
  rw [p.total_eq own i] at hshared
  obtain ⟨own', hinv, hkeeps, hrests⟩ := Keeps.turn hfits.2 hshared hturn
  refine ⟨_, h.set (x := (p.clients i).goOn call rest) hinv ⟨?_, hkeeps⟩⟩
  exact hrests.elim (calm_of_rests hkeeps) id

theorem Held.finish
    {call : Call} {result : Result call.Answer} (h : p.Held origin own)
    (hended : (p.clients i).task = some ⟨call, .done result⟩) :
    ∃ own', Held (p.set i ((p.clients i).finish p.pool call result)) origin own' := by
  have hfits := h.fits i
  rw [Client.Fits, hended] at hfits
  have hends : call.Ends origin result (own i) := hfits.2
  obtain ⟨listing, hshared⟩ := h.shared
  rw [p.total_eq own i, hends.owned] at hshared
  have hgained : call.gainedFrames p.pool result = call.gainedFrames origin result := by
    unfold Call.gainedFrames
    rw [runAt_eq hshared]
  have hblocks : Disjoint (p.clients i).blocks (call.gainedBlocks result) :=
    disjoint_of_nodup hshared.blocks_nodup
  have hframes : Disjoint (p.clients i).frames (call.gainedFrames origin result) :=
    disjoint_of_nodup hshared.frames_nodup
  rw [holdings_union hblocks hframes] at hshared
  refine ⟨_, h.set (x := (p.clients i).finish p.pool call result) ⟨listing, ?_⟩ rfl⟩
  rw [Client.finish, Client.holdings, hgained]
  exact hshared

theorem Fresh.held (h : p.Fresh) : p.pool.Sound ∧ p.Held p.pool fun _ => 0 := by
  obtain ⟨base, totalMemory, storage, hcreate⟩ := h.pool
  obtain ⟨hsound, hleased⟩ := FramePool.sound_of_create hcreate
  obtain ⟨map, hheap⟩ := h.heap
  have hclient (i : Fin n) : (p.clients i).holdings = 0 := by
    rw [h.clients]
    rfl
  have htotal : p.total (fun _ => 0) = 0 := by
    refine sum_eq_zero fun i _ => ?_
    rw [hclient, add_zero]
  have hreaches : map.Reaches p.pool := by
    have hreaches := h.reaches
    rwa [hheap] at hreaches
  have hframed : p.arena.Framed p.pool.leasedFrames := framed_of_empty hheap hsound hreaches
  rw [hleased] at hframed
  have hrecorded : p.arena.Recorded ∅ := recorded_of_empty hheap
  have hheld (name : LockName) : p.machine.locks.holders name = 0 :=
    Locks.holders_eq_zero_iff.2 (h.locks name)
  refine ⟨hsound, ⟨.exact, ?_⟩, fun i => ?_⟩
  · rw [htotal]
    exact {
      base := rfl
      totalMemory := rfl
      custody := (hheld .heap).symm
      gates := (hheld .frames).symm
      blocks_nodup := Multiset.nodup_zero
      frames_nodup := Multiset.nodup_zero
      units_pos := fun b hb => absurd hb (Multiset.notMem_zero b)
      apart := fun b hb => absurd hb (Multiset.notMem_zero b)
      housed := fun b hb => absurd hb (Multiset.notMem_zero b)
      framed := hframed
      closing := fun _ _ hclosing => by cases hclosing
      known := fun c hc => absurd hc (Multiset.notMem_zero c)
      idle := fun _ => ⟨rfl, hrecorded⟩ }
  · rw [Client.Fits, h.clients]

theorem Held.step (h : p.Held origin own) (hsound : origin.Sound) (hstep : p.Step p') :
    ∃ own', p'.Held origin own' := by
  cases hstep with
  | start idle permitted => exact h.start hsound idle permitted
  | work works =>
      cases works with
      | turn running turn => exact h.turn running turn
      | finish ended => exact h.finish ended

/-- In every reachable party each client owns what lets it go on, and the
shares of all describe the machine. -/
theorem Reachable.held (h : Reachable p) : ∃ origin own, origin.Sound ∧ p.Held origin own := by
  induction h with
  | fresh h => exact ⟨_, _, h.held⟩
  | step _ step ih =>
      obtain ⟨origin, own, hsound, hheld⟩ := ih
      obtain ⟨own', hheld'⟩ := hheld.step hsound step
      exact ⟨origin, own', hsound, hheld'⟩

end Party

end KernelMemory
