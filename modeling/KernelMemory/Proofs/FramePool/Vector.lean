import KernelMemory.Proofs.FramePool.Leases
import Mathlib.Data.Bool.Count

/-!
# A pool as a list of booleans

To its users a frame pool is a list with one entry for each frame, true while
the frame is leased.  `Serves` says how such a list answers one request;
`entries` reads the list off the bitmap of a pool.  The main statement is
`vector_refinement`: a new pool answers every run of requests as the list of
that many false entries does, and its statistics and its counter show the
number of true ones.

Requests come with arbitrary addresses and counts, and so may lie outside the
pool, between two frames, or past the end of the address space.
-/

namespace KernelMemory

open Finset Program

/-- One entry for each frame of a pool. -/
abbrev FrameList := List Bool

namespace FrameList

/-- `count` entries from `start` on that all have the same value. -/
structure HasRun (v : FrameList) (start count : ℕ) (value : Bool) : Prop where
  inside : start + count ≤ v.length
  all : ∀ i, start ≤ i → i < start + count → v[i]? = some value

/-- The list with another value in `count` entries from `start` on. -/
def mark (v : FrameList) (start count : ℕ) (value : Bool) : FrameList :=
  v.mapIdx fun i entry => if start ≤ i ∧ i < start + count then value else entry

theorem getElem?_mark (v : FrameList) (start count : ℕ) (value : Bool) (i : ℕ) :
    (v.mark start count value)[i]? =
      v[i]?.map fun entry => if start ≤ i ∧ i < start + count then value else entry :=
  List.getElem?_mapIdx

theorem HasRun.getElem?_mark
    {v : FrameList} {start count i : ℕ} {old : Bool} (h : v.HasRun start count old) (new : Bool)
    (hi : start ≤ i ∧ i < start + count) :
    v[i]? = some old ∧ (v.mark start count new)[i]? = some new := by
  have hold := h.all i hi.1 hi.2
  refine ⟨hold, ?_⟩
  rw [FrameList.getElem?_mark, hold, Option.map_some, if_pos hi]

end FrameList

namespace FramePool

/-- What a user asks of a pool. -/
inductive Request where
  | lease (count : ℕ)
  | leaseOne
  | giveBack (pa : PhysAddr) (count : ℕ)
  | reserve (pa : PhysAddr) (count : ℕ)

namespace Request

/-- What a request is answered with when it is granted. -/
def Answer : Request → Type
  | .lease _ | .leaseOne => PhysAddr
  | .giveBack .. | .reserve .. => Unit

def program : (request : Request) → Program LockName FramePool request.Answer
  | .lease count => FramePool.lease count
  | .leaseOne => FramePool.leaseOne
  | .giveBack pa count => FramePool.giveBack pa count
  | .reserve pa count => FramePool.reserve pa count

end Request

/-! ## The list -/

/-- A run of `count` frames, at least one, from the frame numbered `start` on,
which is the one at `pa`. -/
structure RunAt (base : PhysAddr) (v : FrameList) (pa : PhysAddr) (count start : ℕ) : Prop where
  pos : 0 < count
  address : pa.val.toNat = base.val.toNat + 4096 * start
  inside : start + count ≤ v.length

/-- How a list of frames from `base` on answers a request, and what it becomes. -/
inductive Serves (base : PhysAddr) (v : FrameList) :
    (request : Request) → Result request.Answer → FrameList → Prop
  | leased {count start : ℕ} {pa : PhysAddr} (pos : 0 < count)
      (least : IsLeast {i | v.HasRun i count false} start)
      (address : pa.val.toNat = base.val.toNat + 4096 * start) :
      Serves base v (.lease count) (.ok pa) (v.mark start count true)
  | exhausted {count : ℕ} (pos : 0 < count) (full : ∀ i, ¬ v.HasRun i count false) :
      Serves base v (.lease count) (.refuse .outOfMemory) v
  | leasedNothing : Serves base v (.lease 0) (.refuse (.invalidArgument .emptyRun)) v
  | leasedOne {answer : Result PhysAddr} {v' : FrameList}
      (one : Serves base v (.lease 1) answer v') : Serves base v .leaseOne answer v'
  | returned {pa : PhysAddr} {count start : ℕ} (run : RunAt base v pa count start)
      (busy : v.HasRun start count true) :
      Serves base v (.giveBack pa count) (.ok ()) (v.mark start count false)
  | notReturned {pa : PhysAddr} {count : ℕ}
      (none : ∀ start, RunAt base v pa count start → ¬ v.HasRun start count true) :
      Serves base v (.giveBack pa count) (.refuse (.invalidFree pa)) v
  | reserved {pa : PhysAddr} {count start : ℕ} (run : RunAt base v pa count start)
      (free : v.HasRun start count false) :
      Serves base v (.reserve pa count) (.ok ()) (v.mark start count true)
  | outside {pa : PhysAddr} {count : ℕ} (none : ∀ start, ¬ RunAt base v pa count start) :
      Serves base v (.reserve pa count) (.refuse (.invalidArgument .reservationOutside)) v
  | overlapping {pa : PhysAddr} {count start : ℕ} (run : RunAt base v pa count start)
      (busy : ¬ v.HasRun start count false) :
      Serves base v (.reserve pa count) (.refuse (.invalidArgument .reservationOverlaps)) v

variable {base : PhysAddr} {v v' v'' : FrameList} {request : Request}
variable {answer answer' : Result request.Answer}

theorem RunAt.start_eq
    {pa : PhysAddr} {count start start' : ℕ}
    (h : RunAt base v pa count start) (h' : RunAt base v pa count start') : start = start' := by
  have := h.address
  have := h'.address
  omega

/-- A list has one answer to each request. -/
theorem Serves.unique
    (h : Serves base v request answer v') (h' : Serves base v request answer' v'') :
    answer = answer' ∧ v' = v'' := by
  induction h with
  | leased pos least address =>
      cases h' with
      | leased _ least' address' =>
          rw [least.unique least'] at address ⊢
          exact ⟨congrArg Except.ok (Address.eq_of_toNat (address.trans address'.symm)), rfl⟩
      | exhausted _ full => exact absurd least.1 (full _)
      | leasedNothing => exact absurd pos (Nat.lt_irrefl 0)
  | exhausted pos full =>
      cases h' with
      | leased _ least _ => exact absurd least.1 (full _)
      | exhausted => exact ⟨rfl, rfl⟩
      | leasedNothing => exact absurd pos (Nat.lt_irrefl 0)
  | leasedNothing =>
      cases h' with
      | leased pos => exact absurd pos (Nat.lt_irrefl 0)
      | exhausted pos => exact absurd pos (Nat.lt_irrefl 0)
      | leasedNothing => exact ⟨rfl, rfl⟩
  | leasedOne _ ih =>
      cases h' with
      | leasedOne one => exact ih one
  | returned run busy =>
      cases h' with
      | returned run' _ => exact ⟨rfl, by rw [run.start_eq run']⟩
      | notReturned none => exact absurd busy (none _ run)
  | notReturned none =>
      cases h' with
      | returned run busy => exact absurd busy (none _ run)
      | notReturned => exact ⟨rfl, rfl⟩
  | reserved run free =>
      cases h' with
      | reserved run' _ => exact ⟨rfl, by rw [run.start_eq run']⟩
      | outside none => exact absurd run (none _)
      | overlapping run' busy => exact absurd (run.start_eq run' ▸ free) busy
  | outside none =>
      cases h' with
      | reserved run _ => exact absurd run (none _)
      | outside => exact ⟨rfl, rfl⟩
      | overlapping run _ => exact absurd run (none _)
  | overlapping run busy =>
      cases h' with
      | reserved run' free => exact absurd (run'.start_eq run ▸ free) busy
      | outside none => exact absurd run (none _)
      | overlapping => exact ⟨rfl, rfl⟩

/-! ## The list that a pool shows -/

def entries (pool : FramePool) : FrameList :=
  (List.range pool.totalFrames).map pool.bitmap.isSet

variable {pool : FramePool} {locks : Locks LockName}

@[simp] theorem length_entries (pool : FramePool) : pool.entries.length = pool.totalFrames := by
  rw [entries, List.length_map, List.length_range]

theorem getElem?_entries {i : ℕ} (hi : i < pool.totalFrames) :
    pool.entries[i]? = some (pool.bitmap.isSet i) := by
  rw [entries, List.getElem?_map, List.getElem?_range hi]
  rfl

theorem Sound.hasRun_iff
    (hpool : pool.Sound) {start count : ℕ} {value : Bool} :
    pool.entries.HasRun start count value ↔
      start + count ≤ pool.bitmap.units ∧
        ∀ i, start ≤ i → i < start + count → pool.bitmap.isSet i = value := by
  constructor
  · rintro ⟨inside, all⟩
    rw [length_entries] at inside
    refine ⟨hpool.units ▸ inside, fun i hlow hhigh => ?_⟩
    have hentry := all i hlow hhigh
    rw [getElem?_entries (by omega)] at hentry
    exact Option.some.inj hentry
  · rintro ⟨inside, all⟩
    rw [hpool.units] at inside
    refine ⟨by rwa [length_entries], fun i hlow hhigh => ?_⟩
    rw [getElem?_entries (by omega), all i hlow hhigh]

theorem Sound.hasRun_false_iff
    (hpool : pool.Sound) {start count : ℕ} :
    pool.entries.HasRun start count false ↔ pool.bitmap.Fits count 1 start := by
  rw [hpool.hasRun_iff]
  exact ⟨fun h => ⟨one_dvd start, h.1, h.2⟩, fun h => ⟨h.inside, h.clear⟩⟩

theorem Sound.hasRun_true_iff
    (hpool : pool.Sound) {start count : ℕ} :
    pool.entries.HasRun start count true ↔
      start + count ≤ pool.bitmap.units ∧ Ico start (start + count) ⊆ pool.leasedFrames := by
  rw [hpool.hasRun_iff]
  refine and_congr_right fun inside => ⟨fun h i hi => ?_, fun h i hlow hhigh => ?_⟩
  · rw [mem_Ico] at hi
    exact mem_leasedFrames.2 ⟨by omega, h i hi.1 hi.2⟩
  · exact (mem_leasedFrames.1 (h (mem_Ico.2 ⟨hlow, hhigh⟩))).2

theorem map_isSet_fill
    (map : Bitmap) {start count : ℕ} (h : start + count ≤ map.units) (value : Bool) (n : ℕ) :
    (List.range n).map (map.fill start (start + count) h value).isSet =
      FrameList.mark ((List.range n).map map.isSet) start count value := by
  apply List.ext_getElem?
  intro i
  rw [FrameList.getElem?_mark, List.getElem?_map, List.getElem?_map, Option.map_map]
  cases hi : (List.range n)[i]? with
  | none => rfl
  | some j =>
      obtain ⟨-, rfl⟩ : i < n ∧ i = j := by simpa [List.getElem?_eq_some_iff] using hi
      exact congrArg some (Bitmap.isSet_fill map start (start + count) h value i)

theorem entries_leasing
    {start count : ℕ} (h : start + count ≤ pool.bitmap.units) :
    (pool.leasing start count h).entries = pool.entries.mark start count true :=
  map_isSet_fill pool.bitmap h true pool.totalFrames

theorem entries_returning
    {start count : ℕ} (h : start + count ≤ pool.bitmap.units) :
    (pool.returning start count h).entries = pool.entries.mark start count false :=
  map_isSet_fill pool.bitmap h false pool.totalFrames

theorem Sound.count_entries (hpool : pool.Sound) :
    pool.entries.count true = pool.leasedFrames.card := by
  have hfilter : ((List.range pool.totalFrames).filter pool.bitmap.isSet).toFinset =
      pool.leasedFrames := by
    ext i
    rw [List.mem_toFinset, List.mem_filter, List.mem_range, mem_leasedFrames, hpool.units]
  rw [← hfilter, List.toFinset_card_of_nodup (List.nodup_range.filter _),
    ← List.countP_eq_length_filter, entries, List.count, List.countP_map]
  congr 1
  funext i
  exact beq_true _

theorem Sound.runAt_iff
    (hpool : pool.Sound) {pa : PhysAddr} {count start : ℕ} :
    RunAt pool.base pool.entries pa count start ↔
      pool.frameIndex? pa = some start ∧ 0 < count ∧ start + count ≤ pool.bitmap.units := by
  rw [hpool.frameIndex?_eq_some_iff, hpool.units]
  constructor
  · rintro ⟨pos, address, inside⟩
    rw [length_entries] at inside
    exact ⟨⟨by omega, address⟩, pos, inside⟩
  · rintro ⟨⟨-, address⟩, pos, inside⟩
    exact ⟨pos, address, by rwa [length_entries]⟩

/-! ## Serving requests -/

/-- What a well-formed pool does with a request: it answers as its list does,
stays well-formed, and is unchanged if it refuses. -/
structure Served (pool : FramePool) (request : Request) (answer : Result request.Answer)
    (pool' : FramePool) : Prop where
  serves : Serves pool.base pool.entries request answer pool'.entries
  sound : pool'.Sound
  base : pool'.base = pool.base
  totalMemory : pool'.totalMemory = pool.totalMemory
  kept : ∀ failure, answer = .error failure → pool' = pool

section Requests

variable (hpool : pool.Sound) (hfree : locks.IsFree .frames)
include hpool

theorem Served.of_leasing
    {request : Request} {a : request.Answer} {start count : ℕ}
    (inside : start + count ≤ pool.bitmap.units)
    (free : Disjoint pool.leasedFrames (Ico start (start + count)))
    (serves : Serves pool.base pool.entries request (.ok a)
      (pool.entries.mark start count true)) :
    Served pool request (.ok a) (pool.leasing start count inside) where
  serves := entries_leasing inside ▸ serves
  sound := hpool.leasing free
  base := rfl
  totalMemory := rfl
  kept := nofun

theorem Served.of_refusal
    {request : Request} {failure : Failure}
    (serves : Serves pool.base pool.entries request (.error failure) pool.entries) :
    Served pool request (.error failure) pool :=
  ⟨serves, hpool, rfl, rfl, fun _ _ => rfl⟩

include hfree

theorem exists_served_lease (count : ℕ) :
    ∃ answer pool', (lease count).Yields locks pool answer pool' ∧
      Served pool (.lease count) answer pool' := by
  rcases Nat.eq_zero_or_pos count with rfl | hcount
  · exact ⟨_, _, lease_zero hfree, .of_refusal hpool .leasedNothing⟩
  rcases lease_cases hpool hfree hcount with
    ⟨start, hleast, inside, pa, hpa, hrun⟩ | ⟨hnone, hrun⟩
  · have hleast' : IsLeast {i | pool.entries.HasRun i count false} start := by
      simpa only [hpool.hasRun_false_iff] using hleast
    exact ⟨_, _, hrun, .of_leasing hpool inside (disjoint_of_fits hleast.1)
      (.leased hcount hleast' hpa)⟩
  · refine ⟨_, _, hrun, .of_refusal hpool (.exhausted hcount fun i hi => ?_)⟩
    exact hnone i (hpool.hasRun_false_iff.1 hi)

theorem exists_served_giveBack (pa : PhysAddr) (count : ℕ) :
    ∃ answer pool', (giveBack pa count).Yields locks pool answer pool' ∧
      Served pool (.giveBack pa count) answer pool' := by
  by_cases hreturnable : ∃ start, pool.Returnable pa count start
  · obtain ⟨start, h⟩ := hreturnable
    have hrun : RunAt pool.base pool.entries pa count start :=
      hpool.runAt_iff.2 ⟨h.frame, h.pos, h.inside⟩
    have hbusy : pool.entries.HasRun start count true :=
      hpool.hasRun_true_iff.2 ⟨h.inside, h.leased⟩
    refine ⟨_, _, giveBack_of_returnable hfree h, ?_, hpool.returning h.leased, rfl, rfl, nofun⟩
    rw [entries_returning]
    exact .returned hrun hbusy
  · have hnot (start : ℕ) : ¬ pool.Returnable pa count start := fun h => hreturnable ⟨start, h⟩
    refine ⟨_, _, giveBack_of_not hfree hnot, .of_refusal hpool (.notReturned ?_)⟩
    intro start hrun hbusy
    obtain ⟨hframe, hpos, hinside⟩ := hpool.runAt_iff.1 hrun
    exact hnot start ⟨hframe, hpos, hinside, (hpool.hasRun_true_iff.1 hbusy).2⟩

theorem exists_served_reserve (pa : PhysAddr) (count : ℕ) :
    ∃ answer pool', (reserve pa count).Yields locks pool answer pool' ∧
      Served pool (.reserve pa count) answer pool' := by
  by_cases hmanaged : ∃ start, RunAt pool.base pool.entries pa count start
  · obtain ⟨start, hrun⟩ := hmanaged
    obtain ⟨hframe, hpos, hinside⟩ := hpool.runAt_iff.1 hrun
    by_cases hdisjoint : Disjoint pool.leasedFrames (Ico start (start + count))
    · have hfree' : pool.entries.HasRun start count false := by
        refine hpool.hasRun_iff.2 ⟨hinside, fun i hlow hhigh => ?_⟩
        rw [← Bool.not_eq_true]
        intro hset
        exact disjoint_left.1 hdisjoint (mem_leasedFrames.2 ⟨by omega, hset⟩)
          (mem_Ico.2 ⟨hlow, hhigh⟩)
      exact ⟨_, _, reserve_of_reservable hpool hfree ⟨hframe, hpos, hinside, hdisjoint⟩,
        .of_leasing hpool hinside hdisjoint (.reserved hrun hfree')⟩
    · refine ⟨_, _, reserve_of_busy hpool hfree hframe hpos hinside hdisjoint,
        .of_refusal hpool (.overlapping hrun fun hfree' => hdisjoint ?_)⟩
      exact disjoint_of_fits (hpool.hasRun_false_iff.1 hfree')
  · have hnot (start : ℕ) : ¬ RunAt pool.base pool.entries pa count start :=
      fun h => hmanaged ⟨start, h⟩
    refine ⟨_, _, reserve_of_outside hpool hfree fun start hframe hrun => ?_,
      .of_refusal hpool (.outside hnot)⟩
    exact hnot start (hpool.runAt_iff.2 ⟨hframe, hrun⟩)

/-- Every request is answered, and as the list says. -/
theorem exists_served (request : Request) :
    ∃ answer pool', request.program.Yields locks pool answer pool' ∧
      Served pool request answer pool' := by
  cases request with
  | lease count => exact exists_served_lease hpool hfree count
  | leaseOne =>
      obtain ⟨answer, pool', hrun, hserved⟩ := exists_served_lease hpool hfree 1
      exact ⟨answer, pool', hrun, { hserved with serves := .leasedOne hserved.serves }⟩
  | giveBack pa count => exact exists_served_giveBack hpool hfree pa count
  | reserve pa count => exact exists_served_reserve hpool hfree pa count

end Requests

/-! ## Runs of requests -/

/-- A request and what it was answered. -/
structure Reply where
  request : Request
  answer : Result request.Answer

/-- Serves requests one after the other; `none` if one of them has to wait. -/
def serveAll : List Request → Machine LockName FramePool →
    Option (List Reply × Machine LockName FramePool)
  | [], m => some ([], m)
  | request :: requests, m => do
      let (answer, m') ← request.program.run m
      let (replies, m'') ← serveAll requests m'
      return (⟨request, answer⟩ :: replies, m'')

/-- How a list answers requests one after the other, and what it becomes. -/
inductive ServesAll (base : PhysAddr) : FrameList → List Reply → FrameList → Prop
  | nil {v : FrameList} : ServesAll base v [] v
  | cons {v v' v'' : FrameList} {request : Request} {answer : Result request.Answer}
      {replies : List Reply} (first : Serves base v request answer v')
      (rest : ServesAll base v' replies v'') :
      ServesAll base v (⟨request, answer⟩ :: replies) v''

/-- Whether `count` frames from `pa` on include the one numbered `i`. -/
def Covers (base pa : PhysAddr) (count i : ℕ) : Prop :=
  ∃ k < count, pa.val.toNat + 4096 * k = base.val.toNat + 4096 * i

/-- The replies that hand out the frame numbered `i`, or reserve it. -/
inductive Reply.Grants (base : PhysAddr) (i : ℕ) : Reply → Prop
  | leased {count : ℕ} {pa : PhysAddr} (covers : Covers base pa count i) :
      Grants base i ⟨.lease count, .ok pa⟩
  | leasedOne {pa : PhysAddr} (covers : Covers base pa 1 i) : Grants base i ⟨.leaseOne, .ok pa⟩
  | reserved {count : ℕ} {pa : PhysAddr} (covers : Covers base pa count i) :
      Grants base i ⟨.reserve pa count, .ok ()⟩

/-- The replies that take back the frame numbered `i`. -/
inductive Reply.Returns (base : PhysAddr) (i : ℕ) : Reply → Prop
  | returned {count : ℕ} {pa : PhysAddr} (covers : Covers base pa count i) :
      Returns base i ⟨.giveBack pa count, .ok ()⟩

/-- Frames are not handed out again before they have been taken back. -/
def ReturnedBetween (base : PhysAddr) (replies : List Reply) : Prop :=
  ∀ before grant between again after i,
    replies = before ++ grant :: (between ++ again :: after) →
    grant.Grants base i → again.Grants base i → ∃ reply ∈ between, reply.Returns base i

theorem covers_iff
    {pa : PhysAddr} {count start i : ℕ} (h : pa.val.toNat = base.val.toNat + 4096 * start) :
    Covers base pa count i ↔ start ≤ i ∧ i < start + count := by
  constructor
  · rintro ⟨k, hk, heq⟩
    omega
  · rintro ⟨hlow, hhigh⟩
    exact ⟨i - start, by omega, by omega⟩

/-- Only free frames are granted, and they are leased afterwards. -/
theorem Serves.entry_of_grants
    {i : ℕ} (h : Serves base v request answer v')
    (hgrants : Reply.Grants base i ⟨request, answer⟩) :
    v[i]? = some false ∧ v'[i]? = some true := by
  induction h with
  | leased pos least address =>
      cases hgrants with
      | leased covers => exact least.1.getElem?_mark true ((covers_iff address).1 covers)
  | leasedOne one ih =>
      cases hgrants with
      | leasedOne covers => exact ih (.leased covers)
  | reserved run free =>
      cases hgrants with
      | reserved covers => exact free.getElem?_mark true ((covers_iff run.address).1 covers)
  | _ => cases hgrants

/-- A leased frame stays leased until it is returned. -/
theorem Serves.entry_of_not_returns
    {i : ℕ} (h : Serves base v request answer v')
    (hreturns : ¬ Reply.Returns base i ⟨request, answer⟩) (hi : v[i]? = some true) :
    v'[i]? = some true := by
  induction h with
  | leased => rw [FrameList.getElem?_mark, hi, Option.map_some, ite_self]
  | reserved => rw [FrameList.getElem?_mark, hi, Option.map_some, ite_self]
  | returned run busy =>
      have houtside : ¬ (_ ≤ i ∧ i < _) := fun hrun =>
        hreturns (.returned ((covers_iff run.address).2 hrun))
      rw [FrameList.getElem?_mark, hi, Option.map_some, if_neg houtside]
  | leasedOne one ih => exact ih nofun
  | _ => exact hi

theorem ServesAll.entry_of_not_returns
    {replies : List Reply} {i : ℕ} (h : ServesAll base v replies v')
    (hreturns : ∀ reply ∈ replies, ¬ reply.Returns base i) (hi : v[i]? = some true) :
    v'[i]? = some true := by
  induction h with
  | nil => exact hi
  | cons first rest ih =>
      refine ih (fun reply hmem => hreturns reply (List.mem_cons_of_mem _ hmem)) ?_
      exact first.entry_of_not_returns (hreturns _ List.mem_cons_self) hi

theorem ServesAll.exists_of_append
    {replies replies' : List Reply} (h : ServesAll base v (replies ++ replies') v'') :
    ∃ v', ServesAll base v replies v' ∧ ServesAll base v' replies' v'' := by
  induction replies generalizing v with
  | nil => exact ⟨v, .nil, h⟩
  | cons reply replies ih =>
      cases h with
      | cons first rest =>
          obtain ⟨v', hfirst, hrest⟩ := ih rest
          exact ⟨v', .cons first hfirst, hrest⟩

theorem ServesAll.returnedBetween
    {replies : List Reply} (h : ServesAll base v replies v') : ReturnedBetween base replies := by
  rintro before ⟨_, _⟩ between ⟨_, _⟩ after i rfl hgrants hagain
  obtain ⟨v₁, -, hrest⟩ := h.exists_of_append
  obtain - | ⟨hgrant, hrest⟩ := hrest
  obtain ⟨v₂, hbetween, hrest⟩ := hrest.exists_of_append
  obtain - | ⟨hagain', -⟩ := hrest
  by_contra hnone
  have hkept := hbetween.entry_of_not_returns (fun reply hmem hreturns =>
    hnone ⟨reply, hmem, hreturns⟩) (hgrant.entry_of_grants hgrants).2
  rw [(hagain'.entry_of_grants hagain).1] at hkept
  cases hkept

/-- What the list `v` says of a pool: its statistics and its counter, and what
it does with any request.  A request that is refused changes nothing. -/
structure Mirrors (base : PhysAddr) (v : FrameList) (m : Machine LockName FramePool) : Prop where
  entries : m.state.entries = v
  counter : m.state.allocatedFrames = v.count true
  stats : ∃ m', FramePool.stats.run m = some (.ok ⟨v.length, v.count true, v.count false⟩, m') ∧
    m'.locks = m.locks ∧ m'.state = m.state
  request : ∀ request : Request, ∃ answer m', request.program.run m = some (answer, m') ∧
    m'.locks = m.locks ∧
    (∀ answer' v', Serves base v request answer' v' ↔ answer' = answer ∧ v' = m'.state.entries) ∧
    ∀ failure, answer = .error failure → m'.state = m.state

theorem Sound.mirrors
    {m : Machine LockName FramePool} (hpool : m.state.Sound) (hfree : m.locks.IsFree .frames) :
    Mirrors m.state.base m.state.entries m where
  entries := rfl
  counter := by
    rw [hpool.count_entries, ← hpool.counted]
    rfl
  stats := by
    have hfalse : m.state.entries.count false =
        m.state.totalFrames - m.state.leasedFrames.card := by
      have hsum := List.count_true_add_count_false m.state.entries
      rw [hpool.count_entries, length_entries] at hsum
      omega
    rw [length_entries, hpool.count_entries, hfalse]
    exact (stats_yields hpool hfree).exists_run
  request := by
    intro request
    obtain ⟨answer, pool', hrun, hserved⟩ := exists_served hpool hfree request
    obtain ⟨m', hm', hlocks, rfl⟩ := hrun.exists_run
    refine ⟨answer, m', hm', hlocks, fun answer' v' => ⟨fun h => ?_, ?_⟩, hserved.kept⟩
    · exact h.unique hserved.serves
    · rintro ⟨rfl, rfl⟩
      exact hserved.serves

theorem exists_serveAll
    {m : Machine LockName FramePool} (hpool : m.state.Sound) (hfree : m.locks.IsFree .frames)
    (requests : List Request) :
    ∃ replies m', serveAll requests m = some (replies, m') ∧
      ServesAll m.state.base m.state.entries replies m'.state.entries ∧
      m'.state.Sound ∧ m'.locks = m.locks ∧ m'.state.base = m.state.base := by
  induction requests generalizing m with
  | nil => exact ⟨[], m, rfl, .nil, hpool, rfl, rfl⟩
  | cons request requests ih =>
      obtain ⟨answer, pool', hrun, hserved⟩ := exists_served hpool hfree request
      obtain ⟨m', hm', hlocks, rfl⟩ := hrun.exists_run
      obtain ⟨replies, m'', hall, hserves, hpool', hlocks', hbase⟩ :=
        ih hserved.sound (hlocks ▸ hfree)
      refine ⟨⟨request, answer⟩ :: replies, m'', ?_, ?_, hpool', hlocks'.trans hlocks,
        hbase.trans hserved.base⟩
      · simp only [serveAll, hm', hall, Option.bind_eq_bind, Option.bind_some, Option.pure_def]
      · rw [hserved.base] at hserves
        exact .cons hserved.serves hserves

theorem entries_of_create
    {totalMemory : UInt64} {storage : ByteArray}
    (h : create base totalMemory storage = .ok pool) :
    pool.base = base ∧ pool.entries = List.replicate (framesIn totalMemory) false := by
  obtain ⟨hpool, hfree⟩ := sound_of_create h
  rcases create_cases base totalMemory storage with
    ⟨-, pool', hcreate, hbase, htotal, -⟩ | ⟨-, why, hcreate⟩
  · rw [h] at hcreate
    cases hcreate
    refine ⟨hbase, List.eq_replicate_iff.2 ⟨by rw [length_entries, totalFrames, htotal], ?_⟩⟩
    intro entry hentry
    obtain ⟨i, hi, rfl⟩ := List.mem_map.1 hentry
    have hunit : i < pool.bitmap.units := hpool.units ▸ List.mem_range.1 hi
    exact isSet_eq_false_of_leasedFrames_eq_empty hfree hunit
  · rw [h] at hcreate
    cases hcreate

/-- A new pool answers every run of requests as a list of false entries does,
and shows what that list has become. -/
theorem vector_refinement
    {totalMemory : UInt64} {storage : ByteArray} {m : Machine LockName FramePool}
    (hcreate : create base totalMemory storage = .ok m.state)
    (hfree : m.locks.IsFree .frames) (requests : List Request) :
    ∃ replies m' v, serveAll requests m = some (replies, m') ∧ m'.locks = m.locks ∧
      ServesAll base (List.replicate (framesIn totalMemory) false) replies v ∧
      Mirrors base v m' ∧ ReturnedBetween base replies := by
  obtain ⟨hpool, -⟩ := sound_of_create hcreate
  obtain ⟨hbase, hentries⟩ := entries_of_create hcreate
  obtain ⟨replies, m', hall, hserves, hpool', hlocks, hbase'⟩ :=
    exists_serveAll hpool hfree requests
  have hmirrors := hpool'.mirrors (hlocks ▸ hfree)
  rw [hbase'] at hmirrors
  rw [hbase] at hserves hmirrors
  rw [hentries] at hserves
  exact ⟨replies, m', _, hall, hlocks, hserves, hmirrors, hserves.returnedBetween⟩

/-- Thirty-two frames, of which three are leased, two of them returned and one
of those leased again. -/
theorem exists_vector_pool :
    ∃ m : Machine LockName FramePool,
      create ⟨0x100000⟩ 0x20000 (Bytes.replicate 4 0) = .ok m.state ∧
        m.locks.IsFree .frames ∧
        ∃ replies m' v,
          serveAll [.lease 3, .giveBack ⟨0x101000⟩ 2, .leaseOne] m = some (replies, m') ∧
          m'.locks = m.locks ∧ ServesAll ⟨0x100000⟩ (List.replicate 32 false) replies v ∧
          Mirrors ⟨0x100000⟩ v m' ∧ ReturnedBetween ⟨0x100000⟩ replies := by
  obtain ⟨pool, hcreate, -⟩ := usable_thirtyTwo.exists_pool
  have hfree : (Machine.fresh .spin pool : Machine LockName FramePool).locks.IsFree .frames :=
    Locks.isFree_free .spin LockName.frames
  exact ⟨.fresh .spin pool, hcreate, hfree, vector_refinement hcreate hfree _⟩

end FramePool

end KernelMemory
