import KernelMemory.Kernel
import KernelMemory.Proofs.Program.Discipline
import KernelMemory.Proofs.World.Locking

/-!
# Masking around the allocators

What the code of one processor has to respect so that handlers can interrupt it
whenever interrupts are enabled.  The discipline `Kernel.masking` says what the
running code knows of the interrupt flag, of the locks and of the two
write-once cells, when any number of other contexts are suspended: locks are
taken with interrupts disabled only, suspended contexts hold none, and a cell
that one of them has claimed stays as it is.

There is one rule for each way in which the process goes to work: on a part of
its state, on the flag, under a guard, and on a cell.
-/

namespace KernelMemory

open Program

/-! ## Cells -/

namespace OnceCell

/-- What a context knows of a cell. -/
inductive Stage (α : Type) where
  | unknown
  /-- The context has claimed the cell, and has written `value` at most. -/
  | claimed (value : Option α)
  | ready

namespace Stage

variable {α : Type}

def IsClaimed : Stage α → Prop
  | .claimed _ => True
  | _ => False

/-- Whether what the context knows is true of a cell. -/
def Meets : Stage α → OnceCell α → Prop
  | .unknown, _ => True
  | .claimed value, cell => cell = .writing value
  | .ready, cell => cell.isReady = true

end Stage

variable {α : Type} {cell : OnceCell α} {stage : Stage α} {stages : List (Stage α)}

theorem isReady_iff : cell.isReady = true ↔ ∃ value, cell = .ready value := by
  cases cell with
  | empty => exact ⟨nofun, nofun⟩
  | writing value => exact ⟨nofun, nofun⟩
  | ready value => exact ⟨fun _ => ⟨value, rfl⟩, fun _ => rfl⟩

/-- What several contexts know of a cell is true, and at most one of them has
claimed it. -/
structure Watched (cell : OnceCell α) (stages : List (Stage α)) : Prop where
  meets : ∀ stage ∈ stages, stage.Meets cell
  apart : stages.Pairwise fun a b => ¬ (a.IsClaimed ∧ b.IsClaimed)

theorem Watched.of_unknown
    (hstage : stage.Meets cell) (h : ∀ other ∈ stages, other = .unknown) :
    Watched cell (stage :: stages) where
  meets := by
    intro other hother
    rcases List.mem_cons.1 hother with rfl | hother
    · exact hstage
    · rw [h other hother]
      trivial
  apart := by
    have hnone (a : Stage α) : ∀ b ∈ stages, ¬ (a.IsClaimed ∧ b.IsClaimed) := by
      rintro b hb ⟨-, hclaimed⟩
      rw [h b hb] at hclaimed
      exact hclaimed
    refine List.pairwise_cons.2 ⟨hnone stage, ?_⟩
    exact List.pairwise_of_forall_mem_list fun a _ b hb => hnone a b hb

theorem Watched.tail (h : Watched cell (stage :: stages)) : Watched cell stages where
  meets other hother := h.meets other (List.mem_cons_of_mem _ hother)
  apart := (List.pairwise_cons.1 h.apart).2

/-- A context that has not claimed a cell may come to know what is true. -/
theorem Watched.cons
    (h : Watched cell stages) (hstage : stage.Meets cell) (hclaimed : ¬ stage.IsClaimed) :
    Watched cell (stage :: stages) where
  meets := by
    intro other hother
    rcases List.mem_cons.1 hother with rfl | hother
    · exact hstage
    · exact h.meets other hother
  apart := List.pairwise_cons.2 ⟨fun _ _ hboth => hclaimed hboth.1, h.apart⟩

theorem Watched.of_ready {a b : α} (h : Watched (.ready a) stages) : Watched (.ready b) stages where
  meets := by
    intro other hother
    have hmeets := h.meets other hother
    cases other with
    | unknown => trivial
    | claimed value => cases hmeets
    | ready => rfl
  apart := h.apart

theorem Watched.claim (h : Watched .empty (stage :: stages)) :
    Watched (.writing none) (.claimed none :: stages) := by
  refine .of_unknown rfl fun other hother => ?_
  have hmeets := h.tail.meets other hother
  cases other with
  | unknown => rfl
  | claimed value => cases hmeets
  | ready => cases hmeets

/-- Others know nothing of a cell that a context has claimed. -/
theorem Watched.eq_unknown
    {value : Option α} (h : Watched (.writing value) (.claimed value :: stages)) :
    ∀ other ∈ stages, other = .unknown := by
  intro other hother
  have hmeets := h.tail.meets other hother
  have hapart := (List.pairwise_cons.1 h.apart).1 other hother
  cases other with
  | unknown => rfl
  | claimed value => exact absurd ⟨trivial, trivial⟩ hapart
  | ready => cases hmeets

end OnceCell

open OnceCell

namespace Kernel

/-! ## The discipline -/

/-- What a context on a processor knows. -/
structure Context where
  /-- Whether interrupts are enabled while it runs. -/
  enabled : Bool
  held : List LockName
  frames : Stage FramePool
  heap : Stage Heap

/-- What the running context and the suspended ones know is true; a context
that may be interrupted holds no locks. -/
structure Tended (own : Context) (suspended : List Context) (locks : Locks LockName)
    (k : Kernel) : Prop where
  enabled : k.interrupts = own.enabled
  held : locks.held = own.held
  masked : own.enabled = true → own.held = []
  interrupted : ∀ other ∈ suspended, other.enabled = true ∧ other.held = []
  order : k.heap.isReady = true → k.frames.isReady = true
  frames : Watched k.frames (own.frames :: suspended.map Context.frames)
  heap : Watched k.heap (own.heap :: suspended.map Context.heap)

/-- Locks are taken, and waiting is done, with interrupts disabled only. -/
def masking : Discipline LockName Kernel Context (List Context) where
  inv := Tended
  mayWait own := own.enabled = false
  mayTake name own := own.enabled = false ∧ name ∉ own.held
  mayHold _ _ := True
  mayFree _ _ := True

variable {α β : Type} {own : Context}

/-- What a context knows stays true of a state that has the same flag and
cells. -/
theorem Tended.congr
    {suspended : List Context} {locks : Locks LockName} {k k' : Kernel}
    (h : Tended own suspended locks k) (henabled : k'.interrupts = k.interrupts)
    (hframes : k'.frames = k.frames) (hheap : k'.heap = k.heap) :
    Tended own suspended locks k' where
  enabled := henabled.trans h.enabled
  held := h.held
  masked := h.masked
  interrupted := h.interrupted
  order := by
    rw [hframes, hheap]
    exact h.order
  frames := hframes ▸ h.frames
  heap := hheap ▸ h.heap

/-! ## Parts of the state -/

/-- The context has a part of the state that it may change as it likes, with
whatever locks it holds. -/
def HasPart {σ : Type} (own : Context) (focus : Focus Kernel σ) : Prop :=
  ∀ held suspended locks k, Tended { own with held } suspended locks k →
    ∃ s rebuild, focus k = some (s, rebuild) ∧
      ∀ s', Tended { own with held } suspended locks (rebuild s')

theorem hasPart_frames (h : own.frames = .ready) : HasPart own framesPart := by
  intro held suspended locks k hinv
  have hready := hinv.frames.meets own.frames List.mem_cons_self
  rw [h] at hready
  obtain ⟨pool, hpool⟩ := isReady_iff.1 hready
  refine ⟨pool, _, by rw [framesPart, hpool], fun pool' => ?_⟩
  exact { hinv with
    order := fun _ => rfl
    frames := (hpool ▸ hinv.frames).of_ready }

theorem hasPart_arena (h : own.heap = .ready) : HasPart own arenaPart := by
  intro held suspended locks k hinv
  have hready := hinv.heap.meets own.heap List.mem_cons_self
  rw [h] at hready
  obtain ⟨heap, hheap⟩ := isReady_iff.1 hready
  obtain ⟨pool, hpool⟩ := isReady_iff.1 (hinv.order hready)
  refine ⟨⟨k.memory, pool, heap⟩, _, by rw [arenaPart, hpool, hheap], fun arena => ?_⟩
  exact { hinv with
    order := fun _ => rfl
    frames := (hpool ▸ hinv.frames).of_ready
    heap := (hheap ▸ hinv.heap).of_ready }

/-- A bracketed program on a part of the process keeps the discipline while
interrupts are disabled. -/
theorem keeps_within
    {σ : Type} {focus : Focus Kernel σ} {after held : List LockName}
    {program : Program LockName σ α} (h : program.Bracketed LockName.rank after held)
    (hheld : held.Nodup) (henabled : own.enabled = false) (hfocus : HasPart own focus) :
    Keeps masking { own with held } (within focus program) fun _ own' =>
      own' = { own with held := after } := by
  induction program generalizing held with
  | done result =>
      cases h
      exact rfl
  | step act next ih =>
      intro suspended locks k hinv
      obtain ⟨s, rebuild, hpart, hrebuild⟩ := hfocus held suspended locks k hinv
      obtain ⟨⟨b, s'⟩, hact⟩ := Option.isSome_iff_exists.1 (h.1 s)
      exact Or.inr ⟨b, rebuild s', _, by simp [hpart, hact], hrebuild s', ih b (h.2 b) hheld⟩
  | acquire name next ih =>
      have hnot : name ∉ held := fun hmem => Nat.lt_irrefl _ (h.1 name hmem)
      refine ⟨⟨henabled, hnot⟩, fun suspended locks k hinv hfree => ?_⟩
      refine ⟨{ own with held := name :: held }, ?_, trivial,
        ih h.2 (List.nodup_cons.2 ⟨hnot, hheld⟩)⟩
      refine { hinv with held := congrArg (name :: ·) hinv.held, masked := fun hon => ?_ }
      rw [henabled] at hon
      cases hon
  | tryAcquire name next ih => exact h
  | release name next ih =>
      obtain ⟨rest, rfl, hrest⟩ := h
      obtain ⟨hnot, hnodup⟩ := List.nodup_cons.1 hheld
      refine ⟨trivial, fun suspended locks k hinv => ?_⟩
      have hlocks : locks.held = name :: rest := hinv.held
      refine ⟨hlocks ▸ List.mem_cons_self, { own with held := rest }, ?_, ih (.ok ()) hrest hnodup⟩
      refine { hinv with held := ?_, masked := fun hon => ?_ }
      · have hothers : ∀ other ∈ rest, ¬ other = name := fun other hmem heq => hnot (heq ▸ hmem)
        simpa [Locks.freeing, hlocks] using hothers
      · rw [henabled] at hon
        cases hon
  | emit event next ih => exact ih h hheld

/-! ## The flag -/

theorem keeps_areEnabled
    {post : Result Bool → Context → Prop} (h : post (.ok own.enabled) own) :
    Keeps masking own (Interrupts.areEnabled interruptFlag) post := by
  intro suspended locks k hinv
  exact Or.inr ⟨k.interrupts, k, own, rfl, hinv, by rw [hinv.enabled]; exact h⟩

theorem keeps_setFlag
    (enabled : Bool) {post : Result Unit → Context → Prop} (hheld : own.held = [])
    (h : post (.ok ()) { own with enabled }) :
    Keeps masking own (within interruptFlag (update fun _ => enabled)) post := by
  intro suspended locks k hinv
  exact Or.inr ⟨(), { k with interrupts := enabled }, { own with enabled }, rfl,
    { hinv with enabled := rfl, masked := fun _ => hheld }, h⟩

/-- Code that runs under a guard finds interrupts disabled, and the flag is as
before in the end. -/
theorem keeps_masked
    {body : Program LockName Kernel α} {post : Result α → Context → Prop}
    (hheld : own.held = [])
    (hbody : Keeps masking { own with enabled := false } body fun result own' =>
      own'.held = [] ∧ own'.enabled = false ∧ post result { own' with enabled := own.enabled }) :
    Keeps masking own (Interrupts.masked interruptFlag body) post := by
  have hlast (guard : MaskGuard) (hguard : guard.wereEnabled = own.enabled) :
      Keeps masking { own with enabled := false }
        (body.ensuring (Interrupts.dropGuard interruptFlag guard)) post := by
    refine Keeps.bind (Keeps.attempt (hbody.mono ?_))
    rintro result own' ⟨hheld', henabled', hpost⟩
    rw [Interrupts.dropGuard, hguard]
    cases henabled : own.enabled with
    | true =>
        rw [henabled] at hpost
        exact Keeps.bind (keeps_setFlag true hheld' hpost)
    | false =>
        have hsame : { own' with enabled := own.enabled } = own' := by
          rw [henabled, ← henabled']
        rw [hsame] at hpost
        exact hpost
  refine Keeps.bind (Keeps.bind (keeps_areEnabled ?_))
  cases henabled : own.enabled with
  | true => exact Keeps.bind (keeps_setFlag false hheld (hlast ⟨true⟩ henabled.symm))
  | false =>
      have hsame : { own with enabled := false } = own := by rw [← henabled]
      have hlast' := hlast ⟨false⟩ henabled.symm
      rw [hsame] at hlast'
      exact hlast'

end Kernel

end KernelMemory
