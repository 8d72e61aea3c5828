import KernelMemory.Proofs.FramePool.Vector
import KernelMemory.Proofs.Memory.Windows

/-!
# Returning a run in pieces

A run of leased frames can be cut into consecutive pieces, and the pieces can
be returned one by one in any order.  The main statement is `pieces_returned`:
whatever the cut and the order, every piece is accepted, and the pool ends with
the bitmap and the counter that it has after the whole run is returned at once;
two consecutive returns are one longer return; and a lease is undone by
returning its frames one at a time.

What a pool is after returning pieces depends on the frames that they cover and
on how many those are, but not on the pieces (`Freed.eq_of_covered`).  So it is
enough that a cut covers the frames of its run, and no frame twice.
-/

namespace KernelMemory.FramePool

open Finset Program

/-- A run of frames that is returned with one call. -/
structure Piece where
  pa : PhysAddr
  count : ℕ

/-- Whether a piece includes the frame numbered `i`, counted from `base`. -/
def Piece.Covers (base : PhysAddr) (piece : Piece) (i : ℕ) : Prop :=
  FramePool.Covers base piece.pa piece.count i

/-- Whether one of the pieces includes the frame numbered `i`. -/
def Covered (base : PhysAddr) (pieces : List Piece) (i : ℕ) : Prop :=
  ∃ piece ∈ pieces, piece.Covers base i

def Piece.Apart (base : PhysAddr) (piece other : Piece) : Prop :=
  ∀ i, piece.Covers base i → ¬ other.Covers base i

/-- Returns pieces one after the other; the first refusal ends it. -/
def giveBackAll (pieces : List Piece) : Program LockName FramePool Unit :=
  pieces.forM fun piece => giveBack piece.pa piece.count

section Covered

variable {base : PhysAddr} {piece : Piece} {pieces pieces' : List Piece} {i : ℕ}

@[simp] theorem not_covered_nil : ¬ Covered base [] i := by simp [Covered]

@[simp] theorem covered_cons :
    Covered base (piece :: pieces) i ↔ piece.Covers base i ∨ Covered base pieces i := by
  simp [Covered]

@[simp] theorem covered_append :
    Covered base (pieces ++ pieces') i ↔ Covered base pieces i ∨ Covered base pieces' i := by
  simp [Covered, or_and_right, exists_or]

theorem covered_perm (h : pieces.Perm pieces') :
    Covered base pieces i ↔ Covered base pieces' i := by
  simp only [Covered, h.mem_iff]

end Covered

/-! ## Cutting a run -/

/-- The ways of cutting `count` frames from `pa` on into consecutive pieces,
none of which is empty. -/
inductive Cut : PhysAddr → ℕ → List Piece → Prop
  | nil {pa : PhysAddr} : Cut pa 0 []
  | cons {pa : PhysAddr} {first rest : ℕ} {pieces : List Piece} (pos : 0 < first)
      (tail : Cut (Memory.offset pa (4096 * first)) rest pieces) :
      Cut pa (first + rest) (⟨pa, first⟩ :: pieces)

/-- The frames of a run as pieces of one frame. -/
def singles (pa : PhysAddr) (count : ℕ) : List Piece :=
  (List.range count).map fun k => ⟨Memory.offset pa (4096 * k), 1⟩

theorem cut_singles (pa : PhysAddr) (count : ℕ) : Cut pa count (singles pa count) := by
  induction count generalizing pa with
  | zero => exact .nil
  | succ count ih =>
      have htail : singles pa (count + 1) =
          ⟨pa, 1⟩ :: singles (Memory.offset pa (4096 * 1)) count := by
        have hfirst : Memory.offset pa (4096 * 0) = pa := by
          cases pa
          simp [Memory.offset]
        simp only [singles, List.range_succ_eq_map, List.map_cons, List.map_map, hfirst]
        refine congrArg _ (List.map_congr_left fun k _ => ?_)
        simp only [Function.comp_apply, Memory.offset_offset]
        congr 2
        omega
      rw [htail, Nat.add_comm]
      exact .cons Nat.one_pos (ih _)

namespace Cut

variable {base pa : PhysAddr} {count start : ℕ} {pieces : List Piece}

theorem toNat_next
    {first : ℕ} (hpa : pa.val.toNat = base.val.toNat + 4096 * start)
    (hspace : base.val.toNat + 4096 * (start + first) < UInt64.size) :
    (Memory.offset pa (4096 * first)).val.toNat = base.val.toNat + 4096 * (start + first) := by
  rw [Memory.toNat_offset (by omega)]
  omega

theorem sum_count (h : Cut pa count pieces) : (pieces.map Piece.count).sum = count := by
  induction h with
  | nil => rfl
  | cons pos tail ih => rw [List.map_cons, List.sum_cons, ih]

section Numbered

variable (h : Cut pa count pieces) (hpa : pa.val.toNat = base.val.toNat + 4096 * start)
variable (hspace : base.val.toNat + 4096 * (start + count) < UInt64.size)
include h hpa hspace

theorem exists_start {piece : Piece} (hpiece : piece ∈ pieces) :
    ∃ i, piece.pa.val.toNat = base.val.toNat + 4096 * i ∧ 0 < piece.count ∧
      start ≤ i ∧ i + piece.count ≤ start + count := by
  induction h generalizing start with
  | nil => exact absurd hpiece List.not_mem_nil
  | @cons pa first rest pieces pos tail ih =>
      rcases List.mem_cons.1 hpiece with rfl | hpiece
      · refine ⟨start, hpa, pos, Nat.le_refl _, ?_⟩
        change start + first ≤ _
        omega
      · obtain ⟨i, hi, hpos, hlow, hhigh⟩ := ih (toNat_next hpa (by omega)) (by omega) hpiece
        exact ⟨i, hi, hpos, by omega, by omega⟩

/-- The pieces cover the frames of the run and no others. -/
theorem covered_iff (i : ℕ) : Covered base pieces i ↔ start ≤ i ∧ i < start + count := by
  induction h generalizing start with
  | nil =>
      simp only [not_covered_nil, false_iff]
      omega
  | @cons pa first rest pieces pos tail ih =>
      have hfirst : Piece.Covers base ⟨pa, first⟩ i ↔ start ≤ i ∧ i < start + first :=
        covers_iff hpa
      rw [covered_cons, hfirst, ih (toNat_next hpa (by omega)) (by omega)]
      omega

theorem pairwise_apart : pieces.Pairwise (Piece.Apart base) := by
  induction h generalizing start with
  | nil => exact .nil
  | @cons pa first rest pieces pos tail ih =>
      have hnext : (Memory.offset pa (4096 * first)).val.toNat =
          base.val.toNat + 4096 * (start + first) := toNat_next hpa (by omega)
      refine .cons (fun piece hpiece i hfirst hcovered => ?_) (ih hnext (by omega))
      obtain ⟨-, hbefore⟩ := (covers_iff hpa).1 hfirst
      obtain ⟨hbehind, -⟩ := (tail.covered_iff hnext (by omega) i).1 ⟨piece, hpiece, hcovered⟩
      exact absurd hbefore (Nat.not_lt.2 hbehind)

end Numbered

end Cut

/-! ## What is left of a pool -/

/-- The pool after the frames of some pieces have been freed. -/
structure Freed (pool : FramePool) (pieces : List Piece) (pool' : FramePool) : Prop where
  base : pool'.base = pool.base
  totalMemory : pool'.totalMemory = pool.totalMemory
  shape : pool'.bitmap.SameShape pool.bitmap
  isSet : ∀ i, pool'.bitmap.isSet i = true ↔
    pool.bitmap.isSet i = true ∧ ¬ Covered pool.base pieces i
  counter : pool'.allocated.value =
    pool.allocated.value - UInt64.ofNat (pieces.map Piece.count).sum

namespace Freed

variable {pool pool' pool'' : FramePool} {pieces pieces' : List Piece}

/-- Which frames are freed matters, and how many, but not in which pieces. -/
theorem eq_of_covered
    (h : Freed pool pieces pool') (h' : Freed pool pieces' pool'')
    (hcovered : ∀ i, Covered pool.base pieces i ↔ Covered pool.base pieces' i)
    (hsum : (pieces.map Piece.count).sum = (pieces'.map Piece.count).sum) :
    pool' = pool'' := by
  have hbitmap : pool'.bitmap = pool''.bitmap := by
    refine Bitmap.SameShape.eq_of_isSet
      ⟨h.shape.size.trans h'.shape.size.symm, h.shape.length.trans h'.shape.length.symm,
        h.shape.units.trans h'.shape.units.symm⟩ fun i _ => ?_
    rw [Bool.eq_iff_iff, h.isSet, h'.isSet, hcovered]
  have hcounter : pool'.allocated.value = pool''.allocated.value := by
    rw [h.counter, h'.counter, hsum]
  have hbase := h.base.trans h'.base.symm
  have htotal := h.totalMemory.trans h'.totalMemory.symm
  obtain ⟨base', total', bitmap', ⟨value'⟩⟩ := pool'
  obtain ⟨base'', total'', bitmap'', ⟨value''⟩⟩ := pool''
  simp only at hbase htotal hbitmap hcounter
  rw [hbase, htotal, hbitmap, hcounter]

theorem nil (pool : FramePool) : Freed pool [] pool where
  base := rfl
  totalMemory := rfl
  shape := .refl _
  isSet i := by simp
  counter := by simp

theorem returning
    {pa : PhysAddr} {count index : ℕ} (h : index + count ≤ pool.bitmap.units)
    (hpa : pa.val.toNat = pool.frameStart index) :
    Freed pool [⟨pa, count⟩] (pool.returning index count h) where
  base := rfl
  totalMemory := rfl
  shape := pool.bitmap.sameShape_fill _ _ h false
  isSet i := by
    have hcovered : Piece.Covers pool.base ⟨pa, count⟩ i ↔ index ≤ i ∧ i < index + count :=
      covers_iff hpa
    change (pool.bitmap.fill index (index + count) h false).isSet i = true ↔ _
    rw [Bitmap.isSet_fill, covered_cons, hcovered]
    split_ifs with hrun <;> simp [hrun]
  counter := by
    simp only [List.map_cons, List.map_nil, List.sum_cons, List.sum_nil, Nat.add_zero]
    rfl

theorem append (h : Freed pool pieces pool') (h' : Freed pool' pieces' pool'') :
    Freed pool (pieces ++ pieces') pool'' where
  base := h'.base.trans h.base
  totalMemory := h'.totalMemory.trans h.totalMemory
  shape := h'.shape.trans h.shape
  isSet i := by
    rw [h'.isSet, h.isSet, h.base, and_assoc, ← not_or, covered_append]
  counter := by
    have hsub (a b c : UInt64) : a - b - c = a - (b + c) := by grind
    rw [h'.counter, h.counter, List.map_append, List.sum_append, UInt64.ofNat_add, hsub]

end Freed

/-! ## Returning pieces -/

section Runs

variable {pool : FramePool} {locks : Locks LockName} {pa : PhysAddr} {count index : ℕ}

theorem Returnable.address (h : pool.Returnable pa count index) (hpool : pool.Sound) :
    pa.val.toNat = pool.base.val.toNat + 4096 * index :=
  (hpool.frameIndex?_eq_some_iff.1 h.frame).2

/-- The pool numbers the frames of a run that can be returned without a wrap. -/
theorem Returnable.inSpace (h : pool.Returnable pa count index) (hpool : pool.Sound) :
    pool.base.val.toNat + 4096 * (index + count) < UInt64.size :=
  hpool.frameStart_lt (hpool.units ▸ h.inside)

/-- A run of frames inside another one that can be returned. -/
theorem Returnable.of_within
    (h : pool.Returnable pa count index) (hpool : pool.Sound) {piece : Piece} {i : ℕ}
    (hi : piece.pa.val.toNat = pool.base.val.toNat + 4096 * i) (hpos : 0 < piece.count)
    (hlow : index ≤ i) (hhigh : i + piece.count ≤ index + count) :
    pool.Returnable piece.pa piece.count i where
  frame := by
    have hinside := h.inside
    rw [hpool.units] at hinside
    exact hpool.frameIndex?_eq_some_iff.2 ⟨by omega, hi⟩
  pos := hpos
  inside := hhigh.trans h.inside
  leased := (Ico_subset_Ico hlow hhigh).trans h.leased

/-- A run without a frame of another one can still be returned after that. -/
theorem Returnable.keep
    {piece other : Piece} {i j : ℕ} (h : pool.Returnable piece.pa piece.count i)
    (hother : pool.Returnable other.pa other.count j) (hpool : pool.Sound)
    (hapart : piece.Apart pool.base other) :
    (pool.returning i piece.count h.inside).Returnable other.pa other.count j where
  frame := hother.frame
  pos := hother.pos
  inside := hother.inside.trans_eq (pool.bitmap.sameShape_fill _ _ h.inside false).units.symm
  leased := by
    intro k hk
    rw [leasedFrames_returning, mem_sdiff]
    refine ⟨hother.leased hk, fun hk' => ?_⟩
    refine hapart k ((covers_iff (h.address hpool)).2 (mem_Ico.1 hk')) ?_
    exact (covers_iff (hother.address hpool)).2 (mem_Ico.1 hk)

/-- Pieces without a common frame are all accepted if each of them can be
returned. -/
theorem exists_giveBackAll
    {pieces : List Piece} (hpool : pool.Sound) (hfree : locks.IsFree .frames)
    (hreturnable : ∀ piece ∈ pieces, ∃ i, pool.Returnable piece.pa piece.count i)
    (hapart : pieces.Pairwise (Piece.Apart pool.base)) :
    ∃ pool', (giveBackAll pieces).Yields locks pool (.ok ()) pool' ∧ Freed pool pieces pool' := by
  induction pieces generalizing pool with
  | nil => exact ⟨pool, yields_pure (), .nil pool⟩
  | cons piece pieces ih =>
      obtain ⟨i, hfirst⟩ := hreturnable piece List.mem_cons_self
      obtain ⟨hapart_first, hapart⟩ := List.pairwise_cons.1 hapart
      have hrest : ∀ other ∈ pieces, ∃ j,
          (pool.returning i piece.count hfirst.inside).Returnable other.pa other.count j := by
        intro other hother
        obtain ⟨j, hj⟩ := hreturnable other (List.mem_cons_of_mem _ hother)
        exact ⟨j, hfirst.keep hj hpool (hapart_first other hother)⟩
      obtain ⟨pool', hrun, hfreed⟩ := ih (hpool.returning hfirst.leased) hrest hapart
      refine ⟨pool', (giveBack_of_returnable hfree hfirst).bind hrun, ?_⟩
      exact (Freed.returning hfirst.inside (hfirst.address hpool)).append hfreed

/-- The frames of a run that are freed in pieces are freed as the run frees
them. -/
theorem Freed.eq_returning
    {pool' : FramePool} {pieces order : List Piece} (hfreed : Freed pool order pool')
    (hcut : Cut pa count pieces) (horder : order.Perm pieces)
    (h : pool.Returnable pa count index) (hpool : pool.Sound) :
    pool' = pool.returning index count h.inside := by
  have hpa := h.address hpool
  have hwhole : Freed pool [⟨pa, count⟩] (pool.returning index count h.inside) :=
    .returning h.inside hpa
  refine hfreed.eq_of_covered hwhole (fun i => ?_) ?_
  · have hrun : Piece.Covers pool.base ⟨pa, count⟩ i ↔ index ≤ i ∧ i < index + count :=
      covers_iff hpa
    rw [covered_perm horder, hcut.covered_iff hpa (h.inSpace hpool), covered_cons, hrun]
    simp only [not_covered_nil, or_false]
  · rw [(horder.map _).sum_eq, hcut.sum_count]
    rfl

/-- The pieces of a run that can be returned are accepted in any order, and
leave the pool as the run does. -/
theorem Returnable.giveBackAll_yields
    {pieces order : List Piece} (h : pool.Returnable pa count index) (hpool : pool.Sound)
    (hfree : locks.IsFree .frames) (hcut : Cut pa count pieces) (horder : order.Perm pieces) :
    (giveBackAll order).Yields locks pool (.ok ()) (pool.returning index count h.inside) := by
  have hpa := h.address hpool
  have hspace := h.inSpace hpool
  have hreturnable : ∀ piece ∈ order, ∃ i, pool.Returnable piece.pa piece.count i := by
    intro piece hpiece
    obtain ⟨i, hi, hpos, hlow, hhigh⟩ :=
      hcut.exists_start hpa hspace (horder.mem_iff.1 hpiece)
    exact ⟨i, h.of_within hpool hi hpos hlow hhigh⟩
  have hapart : order.Pairwise (Piece.Apart pool.base) :=
    (horder.pairwise_iff fun hapart i hi hi' => hapart i hi' hi).2 (hcut.pairwise_apart hpa hspace)
  obtain ⟨pool', hrun, hfreed⟩ := exists_giveBackAll hpool hfree hreturnable hapart
  rw [← hfreed.eq_returning hcut horder h hpool]
  exact hrun

/-- Two runs of which the second starts behind the first are one run. -/
theorem Returnable.join
    {first rest j : ℕ} (h : pool.Returnable pa first index) (hpool : pool.Sound)
    (h' : (pool.returning index first h.inside).Returnable
      (Memory.offset pa (4096 * first)) rest j) :
    ∃ hjoin : pool.Returnable pa (first + rest) index,
      (pool.returning index first h.inside).returning j rest h'.inside =
        pool.returning index (first + rest) hjoin.inside := by
  have hnext : (Memory.offset pa (4096 * first)).val.toNat =
      pool.base.val.toNat + 4096 * (index + first) :=
    Cut.toNat_next (h.address hpool) (h.inSpace hpool)
  have haddress := h'.address (hpool.returning h.leased)
  have hj : j = index + first := by
    have hbase : (pool.returning index first h.inside).base = pool.base := rfl
    rw [hnext, hbase] at haddress
    omega
  have hunits : (pool.returning index first h.inside).bitmap.units = pool.bitmap.units :=
    (pool.bitmap.sameShape_fill _ _ h.inside false).units
  have hjoin : pool.Returnable pa (first + rest) index := by
    refine ⟨h.frame, Nat.add_pos_left h.pos rest, ?_, ?_⟩
    · have hinside := h'.inside
      omega
    · have hleased := h'.leased
      rw [leasedFrames_returning, hj] at hleased
      rw [← Ico_union_Ico_eq_Ico (Nat.le_add_right index first) (by omega), ← Nat.add_assoc]
      exact union_subset h.leased (hleased.trans sdiff_subset)
  have hcut : Cut pa (first + rest) [⟨pa, first⟩, ⟨Memory.offset pa (4096 * first), rest⟩] :=
    .cons h.pos (.cons h'.pos .nil)
  have hfreed : Freed pool [⟨pa, first⟩, ⟨Memory.offset pa (4096 * first), rest⟩]
      ((pool.returning index first h.inside).returning j rest h'.inside) :=
    (Freed.returning h.inside (h.address hpool)).append (.returning h'.inside haddress)
  exact ⟨hjoin, hfreed.eq_returning hcut (.refl _) hjoin hpool⟩

/-- A lease gives a run that can be returned, and that undoes the lease. -/
theorem exists_returnable_of_lease
    {m m' : Machine LockName FramePool} (hpool : m.state.Sound) (hfree : m.locks.IsFree .frames)
    (hrun : (lease count).run m = some (.ok pa, m')) :
    m'.locks = m.locks ∧ m'.state.Sound ∧ ∃ index, ∃ h : m'.state.Returnable pa count index,
      m'.state.returning index count h.inside = m.state := by
  rcases Nat.eq_zero_or_pos count with rfl | hcount
  · obtain ⟨hrefused, -⟩ := (lease_zero hfree).eq_of_run hrun
    cases hrefused
  rcases lease_cases hpool hfree hcount with
    ⟨index, hleast, h, pa', hpa', hlease⟩ | ⟨-, hlease⟩
  · obtain ⟨hanswer, hlocks, hstate⟩ := hlease.eq_of_run hrun
    cases hanswer
    have hsound := hpool.leasing (h := h) (disjoint_of_fits hleast.1)
    have hunits : (m.state.leasing index count h).bitmap.units = m.state.bitmap.units :=
      (m.state.bitmap.sameShape_fill _ _ h true).units
    rw [← hstate] at hsound hunits
    have hreturnable : m'.state.Returnable pa count index := by
      refine ⟨hsound.frameIndex?_eq_some_iff.2 ⟨?_, ?_⟩, hcount, h.trans_eq hunits.symm, ?_⟩
      · rw [← hsound.units]
        omega
      · rw [hpa', hstate]
        rfl
      · rw [hstate, leasedFrames_leasing]
        exact subset_union_right
    exact ⟨hlocks, hsound, index, hreturnable,
      returning_leasing hleast.1 hstate rfl rfl hreturnable.inside⟩
  · obtain ⟨hrefused, -⟩ := hlease.eq_of_run hrun
    cases hrefused

theorem exists_returnable_of_giveBack
    {m m' : Machine LockName FramePool} (hfree : m.locks.IsFree .frames)
    (hrun : (giveBack pa count).run m = some (.ok (), m')) :
    m'.locks = m.locks ∧ ∃ index, ∃ h : m.state.Returnable pa count index,
      m'.state = m.state.returning index count h.inside := by
  by_cases hreturnable : ∃ index, m.state.Returnable pa count index
  · obtain ⟨index, h⟩ := hreturnable
    obtain ⟨-, hlocks, hstate⟩ := (giveBack_of_returnable hfree h).eq_of_run hrun
    exact ⟨hlocks, index, h, hstate⟩
  · obtain ⟨hrefused, -⟩ :=
      (giveBack_of_not hfree fun index h => hreturnable ⟨index, h⟩).eq_of_run hrun
    cases hrefused

end Runs

/-- A pool that has served any requests takes back a run in any pieces and in
any order, with the same outcome as when it takes back the run at once;
conversely two returns of consecutive runs are the return of one run; and a
lease is undone by returning its frames one at a time. -/
theorem pieces_returned
    {base : PhysAddr} {totalMemory : UInt64} {storage : ByteArray}
    {m₀ m : Machine LockName FramePool} {requests : List Request} {replies : List Reply}
    (hcreate : create base totalMemory storage = .ok m₀.state)
    (hfree : m₀.locks.IsFree .frames) (hserved : serveAll requests m₀ = some (replies, m)) :
    (∀ pa count m₁ pieces order, (giveBack pa count).run m = some (.ok (), m₁) →
      Cut pa count pieces → order.Perm pieces →
      ∃ m₂, (giveBackAll order).run m = some (.ok (), m₂) ∧
        m₂.locks = m₁.locks ∧ m₂.state = m₁.state) ∧
    (∀ pa first rest m₁ m₂, (giveBack pa first).run m = some (.ok (), m₁) →
      (giveBack (Memory.offset pa (4096 * first)) rest).run m₁ = some (.ok (), m₂) →
      ∃ m₃, (giveBack pa (first + rest)).run m = some (.ok (), m₃) ∧
        m₃.locks = m₂.locks ∧ m₃.state = m₂.state) ∧
    ∀ count pa m₁ order, (lease count).run m = some (.ok pa, m₁) →
      order.Perm (singles pa count) →
      ∃ m₂, (giveBackAll order).run m₁ = some (.ok (), m₂) ∧
        m₂.locks = m.locks ∧ m₂.state = m.state := by
  obtain ⟨hpool₀, -⟩ := sound_of_create hcreate
  obtain ⟨replies', m', hserved', -, hpool, hlocks, -⟩ := exists_serveAll hpool₀ hfree requests
  obtain ⟨-, rfl⟩ : replies' = replies ∧ m' = m := by
    rw [hserved] at hserved'
    simpa [eq_comm] using hserved'
  have hfree' : m'.locks.IsFree .frames := hlocks ▸ hfree
  refine ⟨?_, ?_, ?_⟩
  · intro pa count m₁ pieces order hrun hcut horder
    obtain ⟨hlocks₁, index, h, hstate₁⟩ := exists_returnable_of_giveBack hfree' hrun
    obtain ⟨m₂, hall, hlocks₂, hstate₂⟩ :=
      (h.giveBackAll_yields hpool hfree' hcut horder).exists_run
    exact ⟨m₂, hall, hlocks₂.trans hlocks₁.symm, hstate₂.trans hstate₁.symm⟩
  · intro pa first rest m₁ m₂ hrun₁ hrun₂
    obtain ⟨hlocks₁, index, h, hstate₁⟩ := exists_returnable_of_giveBack hfree' hrun₁
    obtain ⟨hlocks₂, j, h', hstate₂⟩ :=
      exists_returnable_of_giveBack (hlocks₁ ▸ hfree') hrun₂
    obtain ⟨locks₁, log₁, pool₁⟩ := m₁
    subst hstate₁
    obtain ⟨hjoin, heq⟩ := h.join hpool h'
    obtain ⟨m₃, hrun₃, hlocks₃, hstate₃⟩ := (giveBack_of_returnable hfree' hjoin).exists_run
    exact ⟨m₃, hrun₃, hlocks₃.trans (hlocks₂.trans hlocks₁).symm,
      hstate₃.trans (heq.symm.trans hstate₂.symm)⟩
  · intro count pa m₁ order hrun horder
    obtain ⟨hlocks₁, hpool₁, index, h, hundone⟩ := exists_returnable_of_lease hpool hfree' hrun
    obtain ⟨m₂, hall, hlocks₂, hstate₂⟩ :=
      (h.giveBackAll_yields hpool₁ (hlocks₁ ▸ hfree') (cut_singles pa count) horder).exists_run
    exact ⟨m₂, hall, hlocks₂.trans hlocks₁, hstate₂.trans hundone⟩

/-- Eight of thirty-two frames are leased, and six of those are returned in
three pieces, the last piece first. -/
theorem exists_returned_in_pieces :
    ∃ m₀ m m₁ m₂ : Machine LockName FramePool, ∃ replies,
      create ⟨0x100000⟩ 0x20000 (Bytes.replicate 4 0) = .ok m₀.state ∧
        m₀.locks.IsFree .frames ∧ serveAll [.lease 8] m₀ = some (replies, m) ∧
        (giveBack ⟨0x101000⟩ 6).run m = some (.ok (), m₁) ∧
        (giveBackAll [⟨⟨0x104000⟩, 3⟩, ⟨⟨0x101000⟩, 1⟩, ⟨⟨0x102000⟩, 2⟩]).run m =
          some (.ok (), m₂) ∧
        m₂.state = m₁.state := by
  obtain ⟨pool, hcreate, hbase, htotal⟩ := usable_thirtyTwo.exists_pool
  obtain ⟨hpool, hempty⟩ := sound_of_create hcreate
  have hfree : (Machine.fresh .spin pool : Machine LockName FramePool).locks.IsFree .frames :=
    Locks.isFree_free .spin LockName.frames
  have hframes : pool.totalFrames = 32 := by
    rw [totalFrames, htotal]
    decide
  have hleast : IsLeast {t | pool.bitmap.Fits 8 1 t} 0 := hpool.isLeast_fits hempty (by omega)
  rcases lease_cases hpool hfree (show 0 < 8 by decide) with
    ⟨index, hindex, h, pa, -, hlease⟩ | ⟨hnone, -⟩
  swap
  · exact absurd hleast.1 (hnone 0)
  obtain rfl : index = 0 := hindex.unique hleast
  obtain ⟨m, hrun, hlocks, hstate⟩ := hlease.exists_run
  have hserved : serveAll [.lease 8] (.fresh .spin pool) = some ([⟨.lease 8, .ok pa⟩], m) := by
    have hprogram : (Request.lease 8).program.run (.fresh .spin pool) = some (.ok pa, m) := hrun
    simp only [serveAll, hprogram, Option.bind_eq_bind, Option.bind_some, Option.pure_def]
  have hsound : m.state.Sound := hstate ▸ hpool.leasing (disjoint_of_fits hleast.1)
  have hreturnable : m.state.Returnable ⟨0x101000⟩ 6 1 := by
    have hunits : m.state.bitmap.units = 32 := by
      rw [hsound.units, hstate, totalFrames_leasing, hframes]
    refine ⟨hsound.frameIndex?_eq_some_iff.2 ⟨?_, ?_⟩, by decide, by omega, ?_⟩
    · rw [← hsound.units]
      omega
    · rw [frameStart, hstate]
      change _ = pool.base.val.toNat + 4096 * 1
      rw [hbase]
      decide
    · rw [hstate, leasedFrames_leasing]
      exact (Ico_subset_Ico (by decide) (by decide)).trans subset_union_right
  obtain ⟨m₁, hreturned, -⟩ := (giveBack_of_returnable (hlocks ▸ hfree) hreturnable).exists_run
  have hcut : Cut ⟨0x101000⟩ (1 + (2 + (3 + 0)))
      [⟨⟨0x101000⟩, 1⟩, ⟨⟨0x102000⟩, 2⟩, ⟨⟨0x104000⟩, 3⟩] :=
    .cons (by decide) (.cons (by decide) (.cons (by decide) .nil))
  have horder : List.Perm [⟨⟨0x104000⟩, 3⟩, ⟨⟨0x101000⟩, 1⟩, ⟨⟨0x102000⟩, 2⟩]
      [(⟨⟨0x101000⟩, 1⟩ : Piece), ⟨⟨0x102000⟩, 2⟩, ⟨⟨0x104000⟩, 3⟩] :=
    @List.perm_append_comm _ [_] [_, _]
  obtain ⟨m₂, hall, -, hsame⟩ :=
    (pieces_returned hcreate hfree hserved).1 _ _ _ _ _ hreturned hcut horder
  exact ⟨.fresh .spin pool, m, m₁, m₂, _, hcreate, hfree, hserved, hreturned, hall, hsame⟩

end KernelMemory.FramePool
