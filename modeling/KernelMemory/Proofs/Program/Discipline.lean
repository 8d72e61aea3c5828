import KernelMemory.Proofs.Program.Solo
import Mathlib.Logic.Relation

/-!
# Disciplines of contexts that share a state

When several contexts take turns, what holds between two pieces of one program
depends on what the others may do in the meantime.  A `Discipline` says so with
an invariant that relates what a context owns, what all others own, the locks
and the state; others may change anything as long as they keep the invariant
for what the context owns.

`Program.Keeps` says that a program keeps a discipline, from what its context
owns at first to what it owns in the end.  It is a recursion over the pieces of
the program, so there is one rule for each way of composing.  The main
statements are `Keeps.advance`, by which one piece of one context keeps the
invariant for all, and `Keeps.progress`, by which a context that cannot go on
is waiting for a lock.  A context that runs alone keeps its discipline at every
`Moment` of its run (`Keeps.passes`).
-/

namespace KernelMemory

/-! ## Locks -/

namespace Locks

variable {κ : Type} [DecidableEq κ]

def freeing (locks : Locks κ) (name : κ) : Locks κ :=
  { locks with held := locks.held.filter (· ≠ name) }

theorem put_free (locks : Locks κ) (name : κ) (kind : LockKind) :
    locks.put name ⟨kind, false⟩ = locks.freeing name := by
  simp [put, freeing]

theorem release_of_mem {locks : Locks κ} {name : κ} (h : name ∈ locks.held) :
    (locks.lock name).release = (.ok (), ⟨locks.kind, false⟩) := by
  have hheld : locks.isHeld name = true := by simpa [isHeld] using h
  simp [lock, RawLock.release, hheld]

theorem acquire?_eq_none {locks : Locks κ} {name : κ} (h : ¬ locks.IsFree name) :
    (locks.lock name).acquire? = none := by
  have hheld : locks.isHeld name = true := by simpa [isHeld, IsFree] using h
  simp [lock, RawLock.acquire?, hheld]

end Locks

/-! ## Disciplines -/

/-- How contexts share a state: what one context owns has type `ℓ`, what all
others own together has type `ε`. -/
structure Discipline (κ σ ℓ ε : Type) where
  inv : ℓ → ε → Locks κ → σ → Prop
  /-- What a context may own while it waits for the state to change. -/
  mayWait : ℓ → Prop
  /-- What a context may own when it takes a lock. -/
  mayTake : κ → ℓ → Prop
  /-- What a context may own when it has just taken a lock. -/
  mayHold : κ → ℓ → Prop
  /-- What a context may own when it frees a lock. -/
  mayFree : κ → ℓ → Prop

namespace Discipline

variable {κ σ ℓ ε β : Type} (D : Discipline κ σ ℓ ε)

/-- A step keeps the invariant, and is possible unless the context may wait. -/
def Moves (own : ℓ) (act : σ → Option (β × σ)) (post : β → ℓ → Prop) : Prop :=
  ∀ env locks s, D.inv own env locks s → act s = none ∧ D.mayWait own ∨
    ∃ b s' own', act s = some (b, s') ∧ D.inv own' env locks s' ∧ post b own'

/-- A free lock may be taken, which keeps the invariant. -/
def Takes (own : ℓ) (name : κ) (post : ℓ → Prop) : Prop :=
  D.mayTake name own ∧ ∀ env locks s, D.inv own env locks s → locks.IsFree name →
    ∃ own', D.inv own' env (locks.taking name) s ∧ D.mayHold name own' ∧ post own'

/-- A lock is held and may be freed, which keeps the invariant. -/
def Frees [DecidableEq κ] (own : ℓ) (name : κ) (post : ℓ → Prop) : Prop :=
  D.mayFree name own ∧ ∀ env locks s, D.inv own env locks s →
    name ∈ locks.held ∧ ∃ own', D.inv own' env (locks.freeing name) s ∧ post own'

variable {D}

theorem Moves.mono
    {own : ℓ} {act : σ → Option (β × σ)} {post post' : β → ℓ → Prop}
    (h : D.Moves own act post) (himp : ∀ b own', post b own' → post' b own') :
    D.Moves own act post' := by
  intro env locks s hinv
  obtain hwait | ⟨b, s', own', hact, hinv', hpost⟩ := h env locks s hinv
  · exact Or.inl hwait
  · exact Or.inr ⟨b, s', own', hact, hinv', himp b own' hpost⟩

theorem Takes.mono
    {own : ℓ} {name : κ} {post post' : ℓ → Prop}
    (h : D.Takes own name post) (himp : ∀ own', post own' → post' own') :
    D.Takes own name post' := by
  refine ⟨h.1, fun env locks s hinv hfree => ?_⟩
  obtain ⟨own', hinv', hhold, hpost⟩ := h.2 env locks s hinv hfree
  exact ⟨own', hinv', hhold, himp own' hpost⟩

theorem Frees.mono
    [DecidableEq κ] {own : ℓ} {name : κ} {post post' : ℓ → Prop}
    (h : D.Frees own name post) (himp : ∀ own', post own' → post' own') :
    D.Frees own name post' := by
  refine ⟨h.1, fun env locks s hinv => ?_⟩
  obtain ⟨hheld, own', hinv', hpost⟩ := h.2 env locks s hinv
  exact ⟨hheld, own', hinv', himp own' hpost⟩

end Discipline

namespace Program

variable {κ σ τ ℓ ε α β : Type}

section Keeping

variable [DecidableEq κ] {D : Discipline κ σ ℓ ε} {own : ℓ}

/-- Every piece of the program keeps the discipline, and in the end `post`
holds of the result and of what the context owns then. -/
def Keeps (D : Discipline κ σ ℓ ε) :
    ℓ → Program κ σ α → (Result α → ℓ → Prop) → Prop
  | own, .done result, post => post result own
  | own, .step act next, post => D.Moves own act fun b own' => Keeps D own' (next b) post
  | own, .acquire name next, post => D.Takes own name fun own' => Keeps D own' next post
  | _, .tryAcquire .., _ => False
  | own, .release name next, post => D.Frees own name fun own' => Keeps D own' (next (.ok ())) post
  | own, .emit _ next, post => Keeps D own next post

/-! ## Running -/

theorem Keeps.advance
    {program rest : Program κ σ α} {post : Result α → ℓ → Prop} {env : ε}
    {m m' : Machine κ σ} (h : Keeps D own program post)
    (hinv : D.inv own env m.locks m.state) (hadvance : program.advance m = some (rest, m')) :
    ∃ own', D.inv own' env m'.locks m'.state ∧ Keeps D own' rest post := by
  obtain ⟨locks, log, s⟩ := m
  cases program with
  | done result => cases hadvance
  | step act next =>
      obtain ⟨hact, -⟩ | ⟨b, s', own', hact, hinv', hrest⟩ := h env locks s hinv
      · simp [Program.advance, hact] at hadvance
      · simp only [Program.advance, hact, Option.map_some, Option.some.injEq] at hadvance
        cases hadvance
        exact ⟨own', hinv', hrest⟩
  | acquire name next =>
      by_cases hfree : locks.IsFree name
      · obtain ⟨own', hinv', -, hrest⟩ := h.2 env locks s hinv hfree
        simp only [Program.advance, Locks.acquire?_of_isFree hfree, Option.map_some,
          Locks.put_held_of_isFree hfree, Option.some.injEq] at hadvance
        cases hadvance
        exact ⟨own', hinv', hrest⟩
      · simp [Program.advance, Locks.acquire?_eq_none hfree] at hadvance
  | tryAcquire name next => exact h.elim
  | release name next =>
      obtain ⟨hheld, own', hinv', hrest⟩ := h.2 env locks s hinv
      simp only [Program.advance, Locks.release_of_mem hheld, Locks.put_free,
        Option.some.injEq] at hadvance
      cases hadvance
      exact ⟨own', hinv', hrest⟩
  | emit event next =>
      cases hadvance
      exact ⟨own, hinv, h⟩

/-- A program that cannot go on has ended, or waits for a lock that it may
take, or waits for the state where it may. -/
theorem Keeps.progress
    {program : Program κ σ α} {post : Result α → ℓ → Prop} {env : ε} {m : Machine κ σ}
    (h : Keeps D own program post) (hinv : D.inv own env m.locks m.state) :
    (∃ result, program = .done result ∧ post result own) ∨
    (∃ name next, program = .acquire name next ∧ ¬ m.locks.IsFree name ∧ D.mayTake name own) ∨
    D.mayWait own ∨ ∃ out, program.advance m = some out := by
  obtain ⟨locks, log, s⟩ := m
  cases program with
  | done result => exact Or.inl ⟨result, rfl, h⟩
  | step act next =>
      obtain ⟨-, hwait⟩ | ⟨b, s', own', hact, -⟩ := h env locks s hinv
      · exact Or.inr (Or.inr (Or.inl hwait))
      · have hadvance : (Program.step act next).advance ⟨locks, log, s⟩ =
            some (next b, ⟨locks, log, s'⟩) := by simp [Program.advance, hact]
        exact Or.inr (Or.inr (Or.inr ⟨_, hadvance⟩))
  | acquire name next =>
      by_cases hfree : locks.IsFree name
      · refine Or.inr (Or.inr (Or.inr ⟨(next, ⟨locks.taking name, log, s⟩), ?_⟩))
        simp [Program.advance, Locks.acquire?_of_isFree hfree, Locks.put_held_of_isFree hfree]
      · exact Or.inr (Or.inl ⟨name, next, rfl, hfree, h.1⟩)
  | tryAcquire name next => exact h.elim
  | release name next => exact Or.inr (Or.inr (Or.inr ⟨_, rfl⟩))
  | emit event next => exact Or.inr (Or.inr (Or.inr ⟨_, rfl⟩))

/-! ## Composing -/

theorem Keeps.mono
    {program : Program κ σ α} {post post' : Result α → ℓ → Prop}
    (h : Keeps D own program post) (himp : ∀ result own', post result own' → post' result own') :
    Keeps D own program post' := by
  induction program generalizing own with
  | done result => exact himp result own h
  | step act next ih => exact Discipline.Moves.mono h fun b own' => ih b
  | acquire name next ih => exact Discipline.Takes.mono h fun own' => ih
  | tryAcquire name next ih => exact h
  | release name next ih => exact Discipline.Frees.mono h fun own' => ih (.ok ())
  | emit event next ih => exact ih h

theorem Keeps.bind
    {program : Program κ σ α} {next : α → Program κ σ β} {post : Result β → ℓ → Prop}
    (h : Keeps D own program fun result own' =>
      match result with
      | .ok a => Keeps D own' (next a) post
      | .error failure => post (.error failure) own') :
    Keeps D own (program >>= next) post := by
  change Keeps D own (program.bind next) post
  induction program generalizing own with
  | done result => cases result <;> exact h
  | step act rest ih => exact Discipline.Moves.mono h fun b own' => ih b
  | acquire name rest ih => exact Discipline.Takes.mono h fun own' => ih
  | tryAcquire name rest ih => exact h
  | release name rest ih => exact Discipline.Frees.mono h fun own' => ih (.ok ())
  | emit event rest ih => exact ih h

theorem Keeps.attempt
    {program : Program κ σ α} {post : Result (Result α) → ℓ → Prop}
    (h : Keeps D own program fun result own' => post (.ok result) own') :
    Keeps D own program.attempt post := by
  induction program generalizing own with
  | done result => exact h
  | step act rest ih => exact Discipline.Moves.mono h fun b own' => ih b
  | acquire name rest ih => exact Discipline.Takes.mono h fun own' => ih
  | tryAcquire name rest ih => exact h
  | release name rest ih => exact Discipline.Frees.mono h fun own' => ih (.ok ())
  | emit event rest ih => exact ih h

theorem Keeps.outcome
    {program : Program κ σ α} {post : Result (Except AllocError α) → ℓ → Prop}
    (h : Keeps D own program fun result own' =>
      match result with
      | .ok a => post (.ok (.ok a)) own'
      | .error (.refused error) => post (.ok (.error error)) own'
      | .error (.fault fault) => post (.fault fault) own') :
    Keeps D own program.outcome post := by
  refine Keeps.bind (Keeps.attempt (h.mono fun result own' hpost => ?_))
  match result, hpost with
  | .ok a, hpost => exact hpost
  | .error (.refused error), hpost => exact hpost
  | .error (.fault fault), hpost => exact hpost

/-- What comes last runs however the body ends. -/
theorem Keeps.ensuring
    {body : Program κ σ α} {last : Program κ σ Unit} {post : Result α → ℓ → Prop}
    (h : Keeps D own body fun result own' => Keeps D own' last fun ending own'' =>
      match ending with
      | .ok () => post result own''
      | .error failure => post (.error failure) own'') :
    Keeps D own (body.ensuring last) post := by
  apply Keeps.bind
  apply Keeps.attempt
  apply h.mono
  intro result own' hlast
  apply Keeps.bind
  apply hlast.mono
  intro ending own'' hpost
  cases ending <;> exact hpost

theorem Keeps.withLock
    {name : κ} {body : Program κ σ α} {post : Result α → ℓ → Prop}
    (h : D.Takes own name fun own' => Keeps D own' body fun result own'' =>
      D.Frees own'' name fun own''' => post result own''') :
    Keeps D own (withLock name body) post :=
  Discipline.Takes.mono h fun _ hbody => Keeps.ensuring hbody

theorem keeps_done {result : Result α} {post : Result α → ℓ → Prop} (h : post result own) :
    Keeps D own (.done result) post := h

theorem keeps_pure {a : α} {post : Result α → ℓ → Prop} (h : post (.ok a) own) :
    Keeps D own (pure a) post := h

theorem keeps_report {event : Event} {post : Result Unit → ℓ → Prop} (h : post (.ok ()) own) :
    Keeps D own (report event) post := h

/-- A step that is always possible and needs nothing of the state. -/
theorem keeps_inspect
    {f : σ → α} {post : Result α → ℓ → Prop}
    (h : ∀ env locks s, D.inv own env locks s → post (.ok (f s)) own) :
    Keeps D own (inspect f) post :=
  fun env locks s hinv => Or.inr ⟨f s, s, own, rfl, hinv, h env locks s hinv⟩

theorem keeps_update
    {f : σ → σ} {post : Result Unit → ℓ → Prop}
    (h : ∀ env locks s, D.inv own env locks s →
      ∃ own', D.inv own' env locks (f s) ∧ post (.ok ()) own') :
    Keeps D own (update f) post := by
  intro env locks s hinv
  obtain ⟨own', hinv', hpost⟩ := h env locks s hinv
  exact Or.inr ⟨(), f s, own', rfl, hinv', hpost⟩

theorem keeps_critical
    {body : Section σ α} {post : Result α → ℓ → Prop}
    (h : ∀ env locks s, D.inv own env locks s → ∃ result s' own',
      body.perform s = (result, s') ∧ D.inv own' env locks s' ∧ post result own') :
    Keeps D own (critical body) post := by
  intro env locks s hinv
  obtain ⟨result, s', own', hperform, hinv', hpost⟩ := h env locks s hinv
  exact Or.inr ⟨result, s', own', congrArg some hperform, hinv', hpost⟩

end Keeping

/-! ## Moments of a run -/

section Moments

variable [DecidableEq κ]

/-- What is left of a program at some moment, and the machine then. -/
abbrev Moment (κ σ α : Type) := Program κ σ α × Machine κ σ

/-- The next moment of a run. -/
def Moment.Next (first second : Moment κ σ α) : Prop := first.1.advance first.2 = some second

/-- A run passes from one moment to another. -/
def Moment.Passes : Moment κ σ α → Moment κ σ α → Prop := Relation.ReflTransGen Moment.Next

theorem passes_of_run
    {program : Program κ σ α} {m m' : Machine κ σ} {result : Result α}
    (h : program.run m = some (result, m')) :
    Moment.Passes (program, m) (.done result, m') := by
  have hprogram := wellFounded_follows.apply program
  induction hprogram generalizing m with
  | intro program _ ih =>
      rcases advance_of_run h with ⟨result', rfl⟩ | ⟨⟨rest, m₁⟩, hadvance⟩
      · cases h
        exact .refl
      · rw [run_of_advance hadvance] at h
        exact .head hadvance (ih rest ⟨m, m₁, hadvance⟩ h)

/-- A context that runs alone keeps its discipline at every moment. -/
theorem Keeps.passes
    {D : Discipline κ σ ℓ ε} {own : ℓ} {env : ε} {post : Result α → ℓ → Prop}
    {first last : Moment κ σ α} (h : Keeps D own first.1 post)
    (hinv : D.inv own env first.2.locks first.2.state) (hpasses : Moment.Passes first last) :
    ∃ own', D.inv own' env last.2.locks last.2.state ∧ Keeps D own' last.1 post := by
  induction hpasses with
  | refl => exact ⟨own, hinv, h⟩
  | tail _ hnext ih =>
      obtain ⟨own', hinv', hrest⟩ := ih
      exact hrest.advance hinv' hnext

/-- A program that never has to wait ends. -/
theorem exists_run_of_progress
    {program : Program κ σ α} {m : Machine κ σ}
    (h : ∀ last, Moment.Passes (program, m) last →
      (∃ result, last.1 = .done result) ∨ ∃ next, last.1.advance last.2 = some next) :
    ∃ result m', program.run m = some (result, m') := by
  have hprogram := wellFounded_follows.apply program
  induction hprogram generalizing m with
  | intro program _ ih =>
      rcases h _ .refl with ⟨result, hdone⟩ | ⟨⟨rest, m₁⟩, hadvance⟩
      · obtain rfl : program = .done result := hdone
        exact ⟨result, m, rfl⟩
      · obtain ⟨result, m', hrun⟩ := ih rest ⟨m, m₁, hadvance⟩
          fun last hpasses => h last (.head hadvance hpasses)
        exact ⟨result, m', (run_of_advance hadvance).trans hrun⟩

end Moments

/-! ## Programs on a part of the state -/

variable {focus : Focus τ σ}

theorem within_bind (program : Program κ σ α) (next : α → Program κ σ β) :
    within focus (program >>= next) = within focus program >>= fun a => within focus (next a) := by
  change (program.bind next).within focus = (program.within focus).bind _
  induction program with
  | done result => cases result <;> rfl
  | step act rest ih =>
      simp only [bind, within]
      congr 1
      funext b
      exact ih b
  | acquire name rest ih => simp only [bind, within, ih]
  | tryAcquire name rest ih => simp only [bind, within, ih]
  | release name rest ih => simp only [bind, within, ih]
  | emit event rest ih => simp only [bind, within, ih]

theorem within_attempt (program : Program κ σ α) :
    within focus program.attempt = (within focus program).attempt := by
  induction program with
  | done result => rfl
  | step act rest ih =>
      simp only [attempt, within]
      congr 1
      funext b
      exact ih b
  | acquire name rest ih => simp only [attempt, within, ih]
  | tryAcquire name rest ih => simp only [attempt, within, ih]
  | release name rest ih => simp only [attempt, within, ih]
  | emit event rest ih => simp only [attempt, within, ih]

theorem within_outcome (program : Program κ σ α) :
    within focus program.outcome = (within focus program).outcome := by
  rw [outcome, within_bind, within_attempt]
  refine congrArg _ (funext fun result => ?_)
  match result with
  | .ok a => rfl
  | .error (.refused error) => rfl
  | .error (.fault fault) => rfl

theorem within_ensuring (program : Program κ σ α) (last : Program κ σ Unit) :
    within focus (program.ensuring last) = (within focus program).ensuring (within focus last) := by
  have hlast (result : Result α) : within focus (do
        last
        ofResult result) = (do
        within focus last
        ofResult result) :=
    within_bind _ _
  rw [ensuring, within_bind, within_attempt, ensuring]
  simp only [hlast]

theorem within_withLock (name : κ) (program : Program κ σ α) :
    within focus (withLock name program) = withLock name (within focus program) := by
  rw [withLock, within, within_ensuring]
  rfl

end Program

end KernelMemory
