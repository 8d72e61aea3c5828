import Mathlib.Data.Finset.Max
import Mathlib.Logic.Function.Basic
import KernelMemory.Proofs.Program.Bracketing
import KernelMemory.Proofs.Program.Discipline

/-!
# Crews of contexts

Any number of contexts call the operations of one service at the same time,
piece by piece and in any order, while the shared state may change in any way
between two pieces.  For each context a crew also lists the locks that it has
taken and not freed since.

If all operations are bracketed, no crew gets stuck.  A context that waits for
a lock waits for one of higher rank than all that it holds, so the holder of a
lock of highest rank does not wait.  This is `Ordered.exists_canAdvance`; what
one piece does to the locks is `Bracketed.advance`, and `Reachable.ordered`
carries it to whole runs.
-/

namespace KernelMemory

open Program

/-- Operations on a shared state. -/
structure Service (κ σ : Type) where
  Op : Type
  Answer : Op → Type
  program : (op : Op) → Program κ σ (Answer op)

variable {κ σ α : Type} {rank : κ → ℕ}

/-! ## Locks taken and freed by one piece -/

namespace Program

/-- The lock that a program takes next, or tries to. -/
def wants? : Program κ σ α → Option κ
  | .acquire name _ => some name
  | .tryAcquire name _ => some name
  | _ => none

/-- A bracketed program takes locks only above those that are held. -/
theorem Bracketed.wants_above
    {after held : List κ} {program : Program κ σ α} {name : κ}
    (h : program.Bracketed rank after held) (hwants : program.wants? = some name) :
    ∀ other ∈ held, rank other < rank name := by
  cases program with
  | acquire lock next =>
      cases hwants
      exact h.1
  | tryAcquire lock next => exact h.elim
  | done result => cases hwants
  | step act next => cases hwants
  | release lock next => cases hwants
  | emit event next => cases hwants

variable [DecidableEq κ]

/-- The ways in which one piece changes the locks and the list of those that
its context holds. -/
inductive Exchange (rank : κ → ℕ) (locks : Locks κ) (held : List κ) : Locks κ → List κ → Prop
  | kept : Exchange rank locks held locks held
  | took {name : κ} (free : locks.IsFree name) (above : ∀ other ∈ held, rank other < rank name) :
      Exchange rank locks held (locks.taking name) (name :: held)
  | freed {name : κ} {rest : List κ} (top : held = name :: rest) :
      Exchange rank locks held (locks.freeing name) rest

/-- The locks that a context holds after the next piece of its program, last
taken first. -/
def holdsNext (held : List κ) : Program κ σ α → Machine κ σ → List κ
  | .acquire name _, _ => name :: held
  | .tryAcquire name _, m => if m.locks.isHeld name then held else name :: held
  | .release name _, _ => held.erase name
  | _, _ => held

theorem advance_acquire
    {name : κ} {m : Machine κ σ} (next : Program κ σ α) (h : m.locks.IsFree name) :
    (Program.acquire name next).advance m = some (next, { m with locks := m.locks.taking name }) := by
  obtain ⟨locks, log, s⟩ := m
  simp [Program.advance, Locks.acquire?_of_isFree h, Locks.put_held_of_isFree h]

theorem advance_acquire_eq_none
    {name : κ} {m : Machine κ σ} (next : Program κ σ α) (h : ¬ m.locks.IsFree name) :
    (Program.acquire name next).advance m = none := by
  obtain ⟨locks, log, s⟩ := m
  simp [Program.advance, Locks.acquire?_eq_none h]

theorem Bracketed.advance
    {after held : List κ} {program rest : Program κ σ α} {m m' : Machine κ σ}
    (h : program.Bracketed rank after held) (hheld : held ⊆ m.locks.held)
    (hadvance : program.advance m = some (rest, m')) :
    rest.Bracketed rank after (program.holdsNext held m) ∧
      Exchange rank m.locks held m'.locks (program.holdsNext held m) := by
  cases program with
  | done result => cases hadvance
  | step act next =>
      obtain ⟨out, -, hout⟩ := Option.map_eq_some_iff.1 hadvance
      cases hout
      exact ⟨h.2 out.1, .kept⟩
  | acquire name next =>
      by_cases hfree : m.locks.IsFree name
      · rw [advance_acquire next hfree] at hadvance
        cases hadvance
        exact ⟨h.2, .took hfree h.1⟩
      · rw [advance_acquire_eq_none next hfree] at hadvance
        cases hadvance
  | tryAcquire name next => exact h.elim
  | release name next =>
      obtain ⟨held', rfl, hnext⟩ := h
      simp only [Program.advance, Locks.release_of_mem (hheld List.mem_cons_self),
        Locks.put_free, Option.some.injEq] at hadvance
      cases hadvance
      simp only [holdsNext, List.erase_cons_head]
      exact ⟨hnext, .freed rfl⟩
  | emit event next =>
      cases hadvance
      exact ⟨h, .kept⟩

/-- A bracketed program that cannot go on has ended, or waits for a lock. -/
theorem Bracketed.progress
    {after held : List κ} {program : Program κ σ α} (h : program.Bracketed rank after held)
    (m : Machine κ σ) :
    (∃ result, program = .done result) ∨ (∃ out, program.advance m = some out) ∨
      ∃ name, program.wants? = some name ∧ ¬ m.locks.IsFree name := by
  cases program with
  | done result => exact Or.inl ⟨result, rfl⟩
  | step act next =>
      obtain ⟨out, hout⟩ := Option.isSome_iff_exists.1 (h.1 m.state)
      exact Or.inr (Or.inl ⟨_, by rw [Program.advance, hout, Option.map_some]⟩)
  | acquire name next =>
      by_cases hfree : m.locks.IsFree name
      · exact Or.inr (Or.inl ⟨_, advance_acquire next hfree⟩)
      · exact Or.inr (Or.inr ⟨name, rfl, hfree⟩)
  | tryAcquire name next => exact h.elim
  | release name next => exact Or.inr (Or.inl ⟨_, rfl⟩)
  | emit event next => exact Or.inr (Or.inl ⟨_, rfl⟩)

end Program

/-! ## Crews -/

variable {S : Service κ σ} {n : ℕ}

/-- One context: the operation that it is in the middle of, and the locks that
it holds, last taken first. -/
structure Worker (S : Service κ σ) where
  task : Option (Σ op : S.Op, Program κ σ (S.Answer op))
  held : List κ

def Worker.Busy (x : Worker S) : Prop :=
  ∃ op program, x.task = some ⟨op, program⟩ ∧ ∀ result, program ≠ .done result

/-- What a context still has to do suits the locks that it holds. -/
def Worker.Bracketed (rank : κ → ℕ) (x : Worker S) : Prop :=
  match x.task with
  | none => x.held = []
  | some ⟨_, program⟩ => program.Bracketed rank [] x.held

/-- Contexts that share a machine. -/
structure Crew (S : Service κ σ) (n : ℕ) where
  machine : Machine κ σ
  workers : Fin n → Worker S

namespace Crew

/-- The crew after one of its contexts has gone on and left `machine`. -/
def moved (c : Crew S n) (i : Fin n) (x : Worker S) (machine : Machine κ σ) : Crew S n :=
  ⟨machine, Function.update c.workers i x⟩

/-- All locks are free, and nobody has started anything. -/
structure Fresh (c : Crew S n) : Prop where
  locks : ∀ name, c.machine.locks.IsFree name
  workers : ∀ i, c.workers i = ⟨none, []⟩

/-! ## Locks held in order -/

/-- Locks are held in order, and each by one context. -/
structure Ordered (rank : κ → ℕ) (c : Crew S n) : Prop where
  bracketed : ∀ i, (c.workers i).Bracketed rank
  descending : ∀ i, (c.workers i).held.Pairwise fun a b => rank b < rank a
  holder : ∀ name, name ∈ c.machine.locks.held ↔ ∃ i, name ∈ (c.workers i).held
  unique : ∀ i j name, name ∈ (c.workers i).held → name ∈ (c.workers j).held → i = j

variable {c c' : Crew S n} {i j : Fin n} {x : Worker S} {machine : Machine κ σ}

@[simp] theorem workers_moved_self : (c.moved i x machine).workers i = x :=
  Function.update_self ..

@[simp] theorem workers_moved_of_ne (hne : j ≠ i) :
    (c.moved i x machine).workers j = c.workers j :=
  Function.update_of_ne hne ..

theorem Ordered.moved
    (h : c.Ordered rank) (hx : x.Bracketed rank)
    (hdescending : x.held.Pairwise fun a b => rank b < rank a)
    (hlocks : ∀ name, name ∈ machine.locks.held ↔ name ∈ x.held ∨
      ∃ j, j ≠ i ∧ name ∈ (c.workers j).held)
    (hunique : ∀ j name, j ≠ i → name ∈ (c.workers j).held → name ∉ x.held) :
    (c.moved i x machine).Ordered rank := by
  constructor
  · intro j
    by_cases hj : j = i
    · subst hj
      simpa using hx
    · simpa [hj] using h.bracketed j
  · intro j
    by_cases hj : j = i
    · subst hj
      simpa using hdescending
    · simpa [hj] using h.descending j
  · intro name
    refine (hlocks name).trans ⟨?_, ?_⟩
    · rintro (hmem | ⟨j, hj, hmem⟩)
      · exact ⟨i, by simpa using hmem⟩
      · exact ⟨j, by simpa [hj] using hmem⟩
    · rintro ⟨j, hmem⟩
      by_cases hj : j = i
      · subst hj
        exact Or.inl (by simpa using hmem)
      · exact Or.inr ⟨j, hj, by simpa [hj] using hmem⟩
  · intro j k name hmem hmem'
    by_cases hj : j = i <;> by_cases hk : k = i
    · rw [hj, hk]
    · subst hj
      simp only [workers_moved_self, workers_moved_of_ne hk] at hmem hmem'
      exact absurd hmem (hunique k name hk hmem')
    · subst hk
      simp only [workers_moved_self, workers_moved_of_ne hj] at hmem hmem'
      exact absurd hmem' (hunique j name hj hmem)
    · simp only [workers_moved_of_ne hj, workers_moved_of_ne hk] at hmem hmem'
      exact h.unique j k name hmem hmem'

/-- The lock that another context holds is not among one's own. -/
theorem Ordered.not_mem_held
    (h : c.Ordered rank) {name : κ} (hj : j ≠ i) (hmem : name ∈ (c.workers j).held) :
    name ∉ (c.workers i).held :=
  fun hown => hj (h.unique j i name hmem hown)

theorem Fresh.ordered (h : c.Fresh) : c.Ordered rank := by
  have hheld (i : Fin n) : (c.workers i).held = [] := by rw [h.workers]
  constructor
  · intro i
    rw [h.workers]
    rfl
  · intro i
    rw [hheld]
    exact .nil
  · intro name
    apply iff_of_false (h.locks name)
    rintro ⟨i, hmem⟩
    rw [hheld] at hmem
    exact List.not_mem_nil hmem
  · intro i j name hmem
    rw [hheld] at hmem
    exact absurd hmem List.not_mem_nil

theorem Ordered.busy (h : c.Ordered rank) (hheld : (c.workers i).held ≠ []) :
    (c.workers i).Busy := by
  have hbracketed := h.bracketed i
  rw [Worker.Bracketed] at hbracketed
  cases htask : (c.workers i).task with
  | none =>
      rw [htask] at hbracketed
      exact absurd hbracketed hheld
  | some task =>
      rw [htask] at hbracketed
      refine ⟨task.1, task.2, htask, fun result hdone => ?_⟩
      simp only [hdone] at hbracketed
      exact hheld hbracketed

/-- When all operations have ended, all locks are free. -/
theorem Ordered.isFree (h : c.Ordered rank) (hidle : ∀ i, ¬ (c.workers i).Busy) (name : κ) :
    c.machine.locks.IsFree name := by
  intro hmem
  obtain ⟨i, hi⟩ := (h.holder name).1 hmem
  exact hidle i (h.busy (List.ne_nil_of_mem hi))

variable [DecidableEq κ]

/-- A context exchanges locks in order. -/
theorem Ordered.exchanged
    (h : c.Ordered rank) {task : Option (Σ op : S.Op, Program κ σ (S.Answer op))}
    {held : List κ} {locks : Locks κ} {log : Array Event} {state : σ}
    (hx : Worker.Bracketed rank ⟨task, held⟩)
    (hexchange : Exchange rank c.machine.locks (c.workers i).held locks held) :
    (c.moved i ⟨task, held⟩ ⟨locks, log, state⟩).Ordered rank := by
  have hholder (name : κ) : name ∈ c.machine.locks.held ↔ name ∈ (c.workers i).held ∨
      ∃ j, j ≠ i ∧ name ∈ (c.workers j).held := by
    rw [h.holder]
    constructor
    · rintro ⟨j, hmem⟩
      by_cases hj : j = i
      · exact Or.inl (hj ▸ hmem)
      · exact Or.inr ⟨j, hj, hmem⟩
    · rintro (hmem | ⟨j, -, hmem⟩)
      · exact ⟨i, hmem⟩
      · exact ⟨j, hmem⟩
  cases hexchange with
  | kept =>
      apply h.moved hx (h.descending i)
      · exact hholder
      · intro j name hj hmem
        exact h.not_mem_held hj hmem
  | @took name free above =>
      apply h.moved hx
      · exact List.pairwise_cons.2 ⟨above, h.descending i⟩
      · intro other
        simp only [Locks.taking, List.mem_cons, hholder, or_assoc]
      · intro j other hj hmem hown
        rcases List.mem_cons.1 hown with rfl | hown
        · exact free ((h.holder other).2 ⟨j, hmem⟩)
        · exact h.not_mem_held hj hmem hown
  | @freed name rest top =>
      have hdescending := h.descending i
      rw [top, List.pairwise_cons] at hdescending
      have hnot : name ∉ held := fun hmem => lt_irrefl _ (hdescending.1 name hmem)
      have hother (j : Fin n) (hj : j ≠ i) : name ∉ (c.workers j).held := by
        intro hmem
        apply h.not_mem_held hj hmem
        rw [top]
        exact List.mem_cons_self
      apply h.moved hx hdescending.2
      · intro other
        have hmem : other ∈ (c.machine.locks.freeing name).held ↔
            other ∈ c.machine.locks.held ∧ other ≠ name := by
          simp [Locks.freeing]
        rw [hmem, hholder, top]
        constructor
        · rintro ⟨hown | hothers, hne⟩
          · exact Or.inl ((List.mem_cons.1 hown).resolve_left hne)
          · exact Or.inr hothers
        · rintro (hown | ⟨j, hj, hmem⟩)
          · exact ⟨Or.inl (List.mem_cons_of_mem _ hown), fun heq => hnot (heq ▸ hown)⟩
          · exact ⟨Or.inr ⟨j, hj, hmem⟩, fun heq => hother j hj (heq ▸ hmem)⟩
      · intro j other hj hmem hown
        apply h.not_mem_held hj hmem
        rw [top]
        exact List.mem_cons_of_mem _ hown

/-! ## Runs -/

inductive Step (c : Crew S n) : Crew S n → Prop
  | start {i : Fin n} {op : S.Op} (idle : (c.workers i).task = none) :
      Step c (c.moved i ⟨some ⟨op, S.program op⟩, (c.workers i).held⟩ c.machine)
  | advance {i : Fin n} {op : S.Op} {program rest : Program κ σ (S.Answer op)}
      {machine : Machine κ σ} (running : (c.workers i).task = some ⟨op, program⟩)
      (advance : program.advance c.machine = some (rest, machine)) :
      Step c (c.moved i
        ⟨some ⟨op, rest⟩, program.holdsNext (c.workers i).held c.machine⟩ machine)
  | finish {i : Fin n} {op : S.Op} {result : Result (S.Answer op)}
      (ended : (c.workers i).task = some ⟨op, .done result⟩) :
      Step c (c.moved i ⟨none, (c.workers i).held⟩ c.machine)
  /-- Something else changes the shared state. -/
  | disturb {state : σ} : Step c ⟨{ c.machine with state }, c.workers⟩

inductive Reachable : Crew S n → Prop
  | fresh {c : Crew S n} (h : c.Fresh) : Reachable c
  | step {c c' : Crew S n} (h : Reachable c) (step : c.Step c') : Reachable c'

/-- A context can do the next piece of its operation, which for taking a lock
means that the lock is free. -/
def CanAdvance (c : Crew S n) (i : Fin n) : Prop :=
  ∃ op program out, (c.workers i).task = some ⟨op, program⟩ ∧
    program.advance c.machine = some out

theorem Ordered.step
    (h : c.Ordered rank) (hS : ∀ op, (S.program op).Balanced rank []) (hstep : c.Step c') :
    c'.Ordered rank := by
  cases hstep with
  | @start i op idle =>
      have hheld : (c.workers i).held = [] := by
        have := h.bracketed i
        rwa [Worker.Bracketed, idle] at this
      have hbegin : Worker.Bracketed rank
          (⟨some ⟨op, S.program op⟩, (c.workers i).held⟩ : Worker S) := by
        rw [hheld]
        exact hS op
      exact h.exchanged hbegin .kept
  | @advance i op program rest machine running advance =>
      have hprogram : program.Bracketed rank [] (c.workers i).held := by
        have := h.bracketed i
        rwa [Worker.Bracketed, running] at this
      have hsubset : (c.workers i).held ⊆ c.machine.locks.held := by
        intro name hmem
        exact (h.holder name).2 ⟨i, hmem⟩
      obtain ⟨hrest, hexchange⟩ := hprogram.advance hsubset advance
      exact h.exchanged hrest hexchange
  | @finish i op result ended =>
      have hended : Worker.Bracketed rank (⟨none, (c.workers i).held⟩ : Worker S) := by
        have := h.bracketed i
        rwa [Worker.Bracketed, ended] at this
      exact h.exchanged hended .kept
  | disturb => exact ⟨h.bracketed, h.descending, h.holder, h.unique⟩

theorem Reachable.ordered
    (h : Reachable c) (hS : ∀ op, (S.program op).Balanced rank []) : c.Ordered rank := by
  induction h with
  | fresh h => exact h.ordered
  | step _ step ih => exact ih.step hS step

/-! ## Progress -/

/-- A context that cannot go on waits for a lock above all that it holds. -/
theorem Ordered.canAdvance_or_waits (h : c.Ordered rank) (hbusy : (c.workers i).Busy) :
    c.CanAdvance i ∨ ∃ name, ¬ c.machine.locks.IsFree name ∧
      ∀ other ∈ (c.workers i).held, rank other < rank name := by
  obtain ⟨op, program, htask, hnot⟩ := hbusy
  have hprogram := h.bracketed i
  rw [Worker.Bracketed, htask] at hprogram
  rcases Bracketed.progress hprogram c.machine with
    ⟨result, hdone⟩ | ⟨out, hadvance⟩ | ⟨name, hwants, hheld⟩
  · exact absurd hdone (hnot result)
  · exact Or.inl ⟨op, program, out, htask, hadvance⟩
  · exact Or.inr ⟨name, hheld, Bracketed.wants_above hprogram hwants⟩

/-- As long as an operation is in progress, some context can go on. -/
theorem Ordered.exists_canAdvance (h : c.Ordered rank) (hbusy : (c.workers i).Busy) :
    ∃ j, c.CanAdvance j := by
  by_cases hnone : c.machine.locks.held = []
  · rcases h.canAdvance_or_waits hbusy with hgo | ⟨name, hheld, -⟩
    · exact ⟨i, hgo⟩
    · rw [Locks.IsFree, hnone] at hheld
      exact absurd List.not_mem_nil hheld
  -- whoever holds a lock of highest rank waits for none
  obtain ⟨top, htop, hmax⟩ := c.machine.locks.held.toFinset.exists_max_image rank
    (List.toFinset_nonempty_iff _ |>.2 hnone)
  rw [List.mem_toFinset] at htop
  obtain ⟨j, hj⟩ := (h.holder top).1 htop
  rcases h.canAdvance_or_waits (h.busy (List.ne_nil_of_mem hj)) with hgo | ⟨name, hheld, habove⟩
  · exact ⟨j, hgo⟩
  · have hname : name ∈ c.machine.locks.held := not_not.1 hheld
    have hle := hmax name (List.mem_toFinset.2 hname)
    exact absurd (habove top hj) (Nat.not_lt.2 hle)

end Crew

end KernelMemory
