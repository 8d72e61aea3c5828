import KernelMemory.Proofs.Kernel.Masking

/-!
# Entry points under interrupts

Every entry point of the process respects the masking of interrupts: it can be
interrupted wherever interrupts are enabled, and it leaves the flag and the
locks as it found them, on every way out.

`Kernel.Code` says which programs are entry points, and which closures they may
be given: a closure works on the allocators it has been handed, calls entry
points itself, and does anything else that neither enables interrupts nor
touches the cells.  The main statement is `Code.keeps`.
-/

namespace KernelMemory.Kernel

open Program OnceCell

variable {α β : Type} {own : Context}

/-! ## What a call keeps -/

/-- Between two moments a context has come back to its flag and its locks, and
still knows the allocators it knew. -/
structure Context.Kept (own own' : Context) : Prop where
  enabled : own'.enabled = own.enabled
  held : own'.held = own.held
  frames : own.frames = .ready → own'.frames = .ready
  heap : own.heap = .ready → own'.heap = .ready

theorem Context.Kept.refl (own : Context) : own.Kept own := ⟨rfl, rfl, id, id⟩

theorem Context.Kept.trans {a b c : Context} (hab : a.Kept b) (hbc : b.Kept c) : a.Kept c where
  enabled := hbc.enabled.trans hab.enabled
  held := hbc.held.trans hab.held
  frames := hbc.frames ∘ hab.frames
  heap := hbc.heap ∘ hab.heap

/-! ## Cells -/

/-- What a context knows of a cell when it knows `stage`, if it may use the
cell. -/
def Tends (cell : Focus Kernel (OnceCell α)) (own : Stage α → Context) : Prop :=
  ∀ stage suspended locks k, Tended (own stage) suspended locks k →
    ∃ c rebuild stages, cell k = some (c, rebuild) ∧ Watched c (stage :: stages) ∧
      ∀ c' stage', Watched c' (stage' :: stages) → (c.isReady = true → c'.isReady = true) →
        Tended (own stage') suspended locks (rebuild c')

theorem tends_frames (own : Context) : Tends framesCell fun frames => { own with frames } := by
  intro stage suspended locks k hinv
  refine ⟨k.frames, _, _, rfl, hinv.frames, fun c' stage' hwatched hready => ?_⟩
  exact { hinv with
    order := hready ∘ hinv.order
    frames := hwatched }

theorem tends_heap (own : Context) (hframes : own.frames = .ready) :
    Tends heapCell fun heap => { own with heap } := by
  intro stage suspended locks k hinv
  have hready := hinv.frames.meets own.frames List.mem_cons_self
  rw [hframes] at hready
  refine ⟨k.heap, _, _, rfl, hinv.heap, fun c' stage' hwatched _ => ?_⟩
  exact { hinv with
    order := fun _ => hready
    heap := hwatched }

variable {cell : Focus Kernel (OnceCell α)} {know : Stage α → Context}

theorem Tends.keeps_step
    (h : Tends cell know) (stage : Stage α) {act : OnceCell α → Option (β × OnceCell α)}
    {post : Result β → Context → Prop}
    (hact : ∀ c stages, Watched c (stage :: stages) → ∃ b c' stage', act c = some (b, c') ∧
      Watched c' (stage' :: stages) ∧ (c.isReady = true → c'.isReady = true) ∧
        post (.ok b) (know stage')) :
    Keeps masking (know stage) (within cell (.step act (.done ∘ .ok))) post := by
  intro suspended locks k hinv
  obtain ⟨c, rebuild, stages, hcell, hwatched, hrebuild⟩ := h stage suspended locks k hinv
  obtain ⟨b, c', stage', hc', hwatched', hready, hpost⟩ := hact c stages hwatched
  refine Or.inr ⟨b, rebuild c', know stage', ?_, hrebuild c' stage' hwatched' hready, hpost⟩
  simp [hcell, hc']

/-- Storing a value in a cell: the first context to claim the cell goes through
to the end, all others are turned away. -/
theorem Tends.keeps_set
    (h : Tends cell know) (stage : Stage α) (value : α)
    {post : Result (Except α α) → Context → Prop}
    (hstored : ∀ stored, post (.ok (.ok stored)) (know .ready))
    (hrefused : post (.ok (.error value)) (know stage)) :
    Keeps masking (know stage) (OnceCell.set cell value) post := by
  refine Keeps.bind (Keeps.bind (h.keeps_step _ fun c stages hwatched => ?_))
  cases c with
  | empty =>
      refine ⟨true, .writing none, .claimed none, rfl, hwatched.claim, nofun, ?_⟩
      refine Keeps.bind (keeps_pure (Keeps.bind (h.keeps_step _ fun c stages hwatched => ?_)))
      cases hwatched.meets _ List.mem_cons_self
      have hothers := hwatched.eq_unknown
      refine ⟨(), .writing (some value), .claimed (some value), rfl, .of_unknown rfl hothers,
        nofun, ?_⟩
      refine Keeps.bind (h.keeps_step _ fun c stages hwatched => ?_)
      cases hwatched.meets _ List.mem_cons_self
      have hothers := hwatched.eq_unknown
      refine ⟨(), .ready value, .ready, rfl, .of_unknown rfl hothers, nofun, ?_⟩
      refine Keeps.bind (h.keeps_step _ fun c stages hwatched => ?_)
      obtain ⟨stored, rfl⟩ := isReady_iff.1 (hwatched.meets _ List.mem_cons_self)
      exact ⟨stored, _, .ready, rfl, hwatched, id, hstored stored⟩
  | writing written => exact ⟨false, _, stage, rfl, hwatched, id, hrefused⟩
  | ready stored => exact ⟨false, _, stage, rfl, hwatched, id, hrefused⟩

/-- A context that has seen the frame pool knows it from then on. -/
theorem keeps_isInitialized_frames
    {post : Result Bool → Context → Prop} (hyes : post (.ok true) { own with frames := .ready })
    (hno : post (.ok false) own) :
    Keeps masking own (OnceCell.isInitialized framesCell) post := by
  intro suspended locks k hinv
  refine Or.inr ?_
  cases hready : k.frames.isReady with
  | false => exact ⟨false, k, own, by simp [framesCell, hready], hinv, hno⟩
  | true =>
      refine ⟨true, k, { own with frames := .ready }, by simp [framesCell, hready], ?_, hyes⟩
      exact { hinv with frames := hinv.frames.tail.cons hready id }

theorem keeps_isInitialized_heap
    {post : Result Bool → Context → Prop}
    (hyes : post (.ok true) { own with frames := .ready, heap := .ready })
    (hno : post (.ok false) own) :
    Keeps masking own (OnceCell.isInitialized heapCell) post := by
  intro suspended locks k hinv
  refine Or.inr ?_
  cases hready : k.heap.isReady with
  | false => exact ⟨false, k, own, by simp [heapCell, hready], hinv, hno⟩
  | true =>
      refine ⟨true, k, { own with frames := .ready, heap := .ready }, by simp [heapCell, hready],
        ?_, hyes⟩
      exact { hinv with
        frames := hinv.frames.tail.cons (hinv.order hready) id
        heap := hinv.heap.tail.cons hready id }

/-! ## Guarded work on an allocator -/

theorem keeps_withFrames
    {body : Program LockName Kernel α} (hheld : own.held = [])
    (hbody : Keeps masking { own with enabled := false, frames := .ready } body fun _ own' =>
      Context.Kept { own with enabled := false, frames := .ready } own') :
    Keeps masking own (withFrames body) fun _ own' => own.Kept own' := by
  refine Keeps.bind (keeps_isInitialized_frames ?_ (.refl own))
  refine keeps_masked hheld (hbody.mono fun result own' hkept => ?_)
  exact ⟨hkept.held.trans hheld, hkept.enabled, rfl, hkept.held, fun _ => hkept.frames rfl,
    hkept.heap⟩

theorem keeps_withHeap
    {body : Program LockName Kernel α} (hheld : own.held = [])
    (hbody : Keeps masking { own with enabled := false, frames := .ready, heap := .ready } body
      fun _ own' =>
        Context.Kept { own with enabled := false, frames := .ready, heap := .ready } own') :
    Keeps masking own (withHeap body) fun _ own' => own.Kept own' := by
  refine Keeps.bind (keeps_isInitialized_heap ?_ (.refl own))
  refine keeps_masked hheld (hbody.mono fun result own' hkept => ?_)
  exact ⟨hkept.held.trans hheld, hkept.enabled, rfl, hkept.held, fun _ => hkept.frames rfl,
    fun _ => hkept.heap rfl⟩

/-- A balanced operation on a part of the process, with interrupts disabled. -/
theorem keeps_operation
    {σ : Type} {focus : Focus Kernel σ} {program : Program LockName σ α}
    (h : program.Balanced LockName.rank []) (hheld : own.held = []) (henabled : own.enabled = false)
    (hfocus : HasPart own focus) :
    Keeps masking own (within focus program) fun _ own' => own.Kept own' := by
  have hkeeps := keeps_within h List.nodup_nil henabled hfocus
  have hown : { own with held := [] } = own := by rw [← hheld]
  rw [hown] at hkeeps
  exact hkeeps.mono fun result own' hsame => hsame ▸ .refl own

theorem keeps_onFrames
    {body : Program LockName FramePool α} (hheld : own.held = [])
    (h : body.Balanced LockName.rank []) :
    Keeps masking own (onFrames body) fun _ own' => own.Kept own' :=
  keeps_withFrames hheld (keeps_operation h hheld rfl (hasPart_frames rfl))

theorem keeps_onHeap
    {body : Program LockName Arena α} (hheld : own.held = [])
    (h : body.Balanced LockName.rank []) :
    Keeps masking own (onHeap body) fun _ own' => own.Kept own' :=
  keeps_withHeap hheld (keeps_operation h hheld rfl (hasPart_arena rfl))

/-! ## Calls that are not on an allocator -/

theorem moves_of_same
    {act : Kernel → β × Kernel} {post : β → Context → Prop}
    (henabled : ∀ k, (act k).2.interrupts = k.interrupts)
    (hframes : ∀ k, (act k).2.frames = k.frames)
    (hheap : ∀ k, (act k).2.heap = k.heap) (hpost : ∀ k, post (act k).1 own) :
    masking.Moves own (fun k => some (act k)) post := by
  intro suspended locks k hinv
  exact Or.inr ⟨(act k).1, (act k).2, own, rfl, hinv.congr (henabled k) (hframes k) (hheap k),
    hpost k⟩

theorem keeps_setUp (base : PhysAddr) (totalMemory : UInt64) :
    Keeps masking own (setUp base totalMemory) fun _ own' => own.Kept own' := by
  rw [setUp]
  split_ifs
  · exact .refl own
  · refine Keeps.bind (moves_of_same (fun _ => rfl) (fun _ => rfl) (fun _ => rfl) fun k => ?_)
    cases k.bitmapTaken with
    | true => exact .refl own
    | false =>
        refine Keeps.bind (moves_of_same (fun _ => rfl) (fun _ => rfl) (fun _ => rfl) fun k => ?_)
        refine Keeps.bind (Keeps.outcome (Keeps.bind ?_))
        cases hcreate : FramePool.create base totalMemory k.bitmapStorage with
        | error failure =>
            cases failure with
            | fault fault => exact .refl own
            | refused error =>
                exact Keeps.bind (moves_of_same (fun _ => rfl) (fun _ => rfl) (fun _ => rfl)
                  fun k => .refl own)
        | ok pool =>
            refine Keeps.bind (keeps_report (keeps_pure (Keeps.bind ?_)))
            refine (tends_frames own).keeps_set own.frames pool (fun stored => ?_)
              (Context.Kept.refl own)
            have hkept : own.Kept { own with frames := .ready } := ⟨rfl, rfl, fun _ => rfl, id⟩
            have hheap : Tends heapCell fun heap => { own with frames := .ready, heap } :=
              tends_heap { own with frames := .ready } rfl
            refine Keeps.bind (hheap.keeps_set own.heap _ (fun stored => ?_) hkept)
            exact ⟨rfl, rfl, fun _ => rfl, fun _ => rfl⟩

theorem keeps_totalMemory :
    Keeps masking own totalMemory fun _ own' => own.Kept own' := by
  refine Keeps.bind ((tends_frames own).keeps_step own.frames fun c stages hwatched => ?_)
  refine ⟨c.value?, c, own.frames, rfl, hwatched, id, ?_⟩
  cases c.value? with
  | none => exact .refl own
  | some pool => exact .refl own

theorem Keeps.pointerOrNone
    {body : Program LockName Kernel (Option VirtAddr)}
    (h : Keeps masking own body fun _ own' => own.Kept own') :
    Keeps masking own (Kernel.pointerOrNone body) fun _ own' => own.Kept own' := by
  refine Keeps.bind (Keeps.outcome (h.mono fun result own' hkept => ?_))
  match result with
  | .ok pointer => exact hkept
  | .error (.refused error) => exact hkept
  | .error (.fault fault) => exact hkept

theorem keeps_freePointer (hheld : own.held = []) (pointer : VirtAddr) :
    Keeps masking own (freePointer pointer) fun _ own' => own.Kept own' := by
  rw [freePointer]
  split_ifs
  · exact .refl own
  · exact keeps_onHeap hheld (Arena.balanced_freePointer pointer)

theorem keeps_dealloc (hheld : own.held = []) (pointer : VirtAddr) :
    Keeps masking own (dealloc pointer) fun _ own' => own.Kept own' := by
  have honHeap := keeps_onHeap hheld (Arena.balanced_dealloc pointer)
  refine Keeps.bind (Keeps.outcome (honHeap.mono fun result own' hkept => ?_))
  match result with
  | .ok _ => exact hkept
  | .error (.refused error) => exact hkept
  | .error (.fault fault) => exact hkept

/-! ## Code of the process -/

/-- Where code runs. -/
inductive Layer where
  /-- As a call of an entry point. -/
  | call
  /-- In a closure that has been given to an entry point. -/
  | closure

/-- Which allocators code has been handed. -/
structure Instances where
  frames : Bool
  heap : Bool

def Instances.none : Instances := ⟨false, false⟩

/-- A step that does not enable interrupts, and leaves the cells alone. -/
def Quiet (act : Kernel → Option (β × Kernel)) : Prop :=
  ∀ k b k', act k = some (b, k') →
    (k'.interrupts = true → k.interrupts = true) ∧ k'.frames = k.frames ∧ k'.heap = k.heap

/-- The entry points of the process, and the closures that some of them take. -/
inductive Code : Layer → Instances → ∀ {α : Type}, Program LockName Kernel α → Prop
  | setUp {handed : Instances} (base : PhysAddr) (totalMemory : UInt64) :
      Code .call handed (setUp base totalMemory)
  | totalMemory {handed : Instances} : Code .call handed totalMemory
  | leaseFrames {handed : Instances} (count : ℕ) : Code .call handed (leaseFrames count)
  | giveBackFrames {handed : Instances} (pa : PhysAddr) (count : ℕ) :
      Code .call handed (giveBackFrames pa count)
  | reserveFrames {handed : Instances} (pa : PhysAddr) (count : ℕ) :
      Code .call handed (reserveFrames pa count)
  | frameUsage {handed : Instances} : Code .call handed frameUsage
  | heapUsage {handed : Instances} : Code .call handed heapUsage
  | alloc {handed : Instances} (size : UInt64) : Code .call handed (alloc size)
  | free {handed : Instances} (pa : PhysAddr) : Code .call handed (free pa)
  | allocPointer {handed : Instances} (size : UInt64) : Code .call handed (allocPointer size)
  | freePointer {handed : Instances} (pointer : VirtAddr) : Code .call handed (freePointer pointer)
  | allocLayout {handed : Instances} (layout : Layout) :
      Code .call handed (blockAllocator.alloc layout)
  | dealloc {handed : Instances} (pointer : VirtAddr) :
      Code .call handed (blockAllocator.dealloc pointer)
  | withFrames {handed : Instances} {α : Type} {body : Program LockName Kernel α}
      (hbody : Code .closure { handed with frames := true } body) :
      Code .call handed (withFrames body)
  | withHeap {handed : Instances} {α : Type} {body : Program LockName Kernel α}
      (hbody : Code .closure { handed with heap := true } body) :
      Code .call handed (withHeap body)
  | done {handed : Instances} {α : Type} (result : Result α) : Code .closure handed (.done result)
  | step {handed : Instances} {α β : Type} {act : Kernel → Option (β × Kernel)}
      {next : β → Program LockName Kernel α} (hact : Quiet act)
      (hnext : ∀ b, Code .closure handed (next b)) : Code .closure handed (.step act next)
  | emit {handed : Instances} {α : Type} {next : Program LockName Kernel α} (event : Event)
      (hnext : Code .closure handed next) : Code .closure handed (.emit event next)
  /-- A closure calls an entry point. -/
  | nested {handed : Instances} {α β : Type} {inner : Program LockName Kernel β}
      {next : Result β → Program LockName Kernel α} (hinner : Code .call handed inner)
      (hnext : ∀ result, Code .closure handed (next result)) :
      Code .closure handed (inner.attempt.bind next)
  /-- A closure works on the frame pool that it has been handed. -/
  | onFrames {handed : Instances} {α : Type} (hframes : handed.frames = true)
      (request : FramePool.Request)
      {next : Result request.Answer → Program LockName Kernel α}
      (hnext : ∀ result, Code .closure handed (next result)) :
      Code .closure handed ((within framesPart request.program).attempt.bind next)
  | frameStats {handed : Instances} {α : Type} (hframes : handed.frames = true)
      {next : Result FrameUsage → Program LockName Kernel α}
      (hnext : ∀ result, Code .closure handed (next result)) :
      Code .closure handed ((within framesPart FramePool.stats).attempt.bind next)
  /-- A closure works on the heap that it has been handed. -/
  | onHeap {handed : Instances} {α : Type} (hheap : handed.heap = true) (call : Call)
      {next : Result call.Answer → Program LockName Kernel α}
      (hnext : ∀ result, Code .closure handed (next result)) :
      Code .closure handed ((within arenaPart call.program).attempt.bind next)

/-- A context knows the allocators that its code has been handed. -/
structure Context.Has (own : Context) (handed : Instances) : Prop where
  frames : handed.frames = true → own.frames = .ready
  heap : handed.heap = true → own.heap = .ready

theorem Context.Has.of_kept
    {handed : Instances} {own' : Context} (h : own.Has handed) (hkept : own.Kept own') :
    own'.Has handed where
  frames := hkept.frames ∘ h.frames
  heap := hkept.heap ∘ h.heap

theorem Keeps.andThen
    {handed : Instances} {inner : Program LockName Kernel β}
    {next : Result β → Program LockName Kernel α} (hheld : own.held = []) (hhas : own.Has handed)
    (henabled : own.enabled = false)
    (hinner : Keeps masking own inner fun _ own' => own.Kept own')
    (hnext : ∀ result {own' : Context}, own'.held = [] → own'.Has handed → own'.enabled = false →
      Keeps masking own' (next result) fun _ own'' => own'.Kept own'') :
    Keeps masking own (inner.attempt.bind next) fun _ own' => own.Kept own' := by
  refine Keeps.bind (Keeps.attempt (hinner.mono fun result own' hkept => ?_))
  refine (hnext result (hkept.held.trans hheld) (hhas.of_kept hkept)
    (hkept.enabled.trans henabled)).mono fun _ own'' hkept' => ?_
  exact hkept.trans hkept'

/-- Entry points keep the discipline, wherever they are called.  Closures keep
it while interrupts are disabled. -/
theorem Code.keeps
    {layer : Layer} {handed : Instances} {program : Program LockName Kernel α}
    (h : Code layer handed program) (hheld : own.held = []) (hhas : own.Has handed)
    (henabled : layer = .closure → own.enabled = false) :
    Keeps masking own program fun _ own' => own.Kept own' := by
  have hpool : LockName.frames ∉ ([] : List LockName) := List.not_mem_nil
  induction h generalizing own with
  | setUp base totalMemory => exact keeps_setUp base totalMemory
  | totalMemory => exact keeps_totalMemory
  | leaseFrames count => exact keeps_onFrames hheld (FramePool.balanced_lease hpool count)
  | giveBackFrames pa count =>
      exact keeps_onFrames hheld (FramePool.balanced_giveBack hpool pa count)
  | reserveFrames pa count => exact keeps_onFrames hheld (FramePool.balanced_reserve hpool pa count)
  | frameUsage => exact keeps_onFrames hheld (FramePool.balanced_stats hpool)
  | heapUsage => exact keeps_onHeap hheld Call.stats.balances
  | alloc size => exact keeps_onHeap hheld (Call.alloc size).balances
  | free pa => exact keeps_onHeap hheld (Call.free pa).balances
  | allocPointer size =>
      exact Keeps.pointerOrNone (keeps_onHeap hheld (Call.allocPointer size).balances)
  | freePointer pointer => exact keeps_freePointer hheld pointer
  | allocLayout layout =>
      exact Keeps.pointerOrNone (keeps_onHeap hheld (Call.allocLayout layout).balances)
  | dealloc pointer => exact keeps_dealloc hheld pointer
  | withFrames hbody ih =>
      exact keeps_withFrames hheld (ih hheld ⟨fun _ => rfl, hhas.heap⟩ fun _ => rfl)
  | withHeap hbody ih =>
      exact keeps_withHeap hheld (ih hheld ⟨fun _ => rfl, fun _ => rfl⟩ fun _ => rfl)
  | done result => exact .refl own
  | @step _ _ _ act next hact hnext ih =>
      intro suspended locks k hinv
      cases hk : act k with
      | none => exact Or.inl ⟨rfl, henabled rfl⟩
      | some out =>
          obtain ⟨hflag, hframes, hheap⟩ := hact k out.1 out.2 hk
          have hmasked : k.interrupts = false := hinv.enabled.trans (henabled rfl)
          have hsame : out.2.interrupts = k.interrupts := by
            rw [hmasked, ← Bool.not_eq_true]
            intro hon
            rw [hmasked] at hflag
            exact Bool.false_ne_true (hflag hon)
          exact Or.inr ⟨out.1, out.2, own, rfl, hinv.congr hsame hframes hheap,
            ih out.1 hheld hhas henabled⟩
  | emit event hnext ih => exact ih hheld hhas henabled
  | nested hinner hnext ihinner ihnext =>
      refine Keeps.andThen hheld hhas (henabled rfl) (ihinner hheld hhas nofun) ?_
      exact fun result own' hheld hhas henabled => ihnext result hheld hhas fun _ => henabled
  | onFrames hframes request hnext ih =>
      have hinner := keeps_operation (request.balances hpool) hheld (henabled rfl)
        (hasPart_frames (hhas.frames hframes))
      refine Keeps.andThen hheld hhas (henabled rfl) hinner ?_
      exact fun result own' hheld hhas henabled => ih result hheld hhas fun _ => henabled
  | frameStats hframes hnext ih =>
      have hinner := keeps_operation (FramePool.balanced_stats hpool) hheld (henabled rfl)
        (hasPart_frames (hhas.frames hframes))
      refine Keeps.andThen hheld hhas (henabled rfl) hinner ?_
      exact fun result own' hheld hhas henabled => ih result hheld hhas fun _ => henabled
  | onHeap hheap call hnext ih =>
      have hinner := keeps_operation call.balances hheld (henabled rfl)
        (hasPart_arena (hhas.heap hheap))
      refine Keeps.andThen hheld hhas (henabled rfl) hinner ?_
      exact fun result own' hheld hhas henabled => ih result hheld hhas fun _ => henabled

end KernelMemory.Kernel
