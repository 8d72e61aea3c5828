import KernelMemory.Program.Run
import KernelMemory.Proofs.Section

/-!
# What a program does alone

Rules for programs that no other context interrupts.  A program `Yields` a result
and a state if it ends with them whatever the log holds, and leaves the locks
as it found them.  There is one rule for each way of composing; runs are
deterministic, so what a program yields is what every run of it does.  Every
piece leaves less of a program, so none goes on for ever (`wellFounded_follows`).
-/

namespace KernelMemory

/-! ## Locks -/

namespace Locks

variable {κ : Type}

def taking (locks : Locks κ) (name : κ) : Locks κ := { locks with held := name :: locks.held }

def IsFree (locks : Locks κ) (name : κ) : Prop := name ∉ locks.held

theorem isFree_free (kind : LockKind) (name : κ) : (free kind).IsFree name := by
  simp [free, IsFree]

theorem isFree_taking
    {locks : Locks κ} {name other : κ} (h : locks.IsFree name) (hne : name ≠ other) :
    (locks.taking other).IsFree name := by
  simp only [IsFree, taking, List.mem_cons, not_or]
  exact ⟨hne, h⟩

variable [DecidableEq κ]

theorem filter_held_eq
    {locks : Locks κ} {name : κ} (h : locks.IsFree name) :
    locks.held.filter (fun other => decide (other ≠ name)) = locks.held := by
  rw [List.filter_eq_self]
  intro other hother
  have hne : other ≠ name := fun heq => h (heq ▸ hother)
  exact decide_eq_true hne

theorem acquire?_of_isFree
    {locks : Locks κ} {name : κ} (h : locks.IsFree name) :
    (locks.lock name).acquire? = some ⟨locks.kind, true⟩ := by
  have hheld : locks.isHeld name = false := by
    simpa [isHeld, IsFree] using h
  simp [lock, RawLock.acquire?, hheld]

theorem put_held_of_isFree
    {locks : Locks κ} {name : κ} (h : locks.IsFree name) :
    locks.put name ⟨locks.kind, true⟩ = locks.taking name := by
  simp only [put, ↓reduceIte, taking]
  rw [filter_held_eq h]

theorem release_taking (locks : Locks κ) (name : κ) :
    ((locks.taking name).lock name).release = (.ok (), ⟨locks.kind, false⟩) := by
  simp [taking, lock, isHeld, RawLock.release]

theorem put_free_taking
    {locks : Locks κ} {name : κ} (h : locks.IsFree name) :
    (locks.taking name).put name ⟨locks.kind, false⟩ = locks := by
  cases locks with
  | mk kind held =>
      have hfilter := filter_held_eq h
      simp only [put, taking, List.filter_cons, ne_eq, not_true_eq_false, decide_false,
        Bool.false_eq_true, ↓reduceIte]
      exact congrArg (Locks.mk kind) hfilter

end Locks

/-! ## Programs -/

namespace Program

variable {κ σ τ α β : Type} [DecidableEq κ]
variable {locks : Locks κ} {s s' s'' : σ}

/-- Alone, the program ends with `result` and leaves `s'`, whatever the log, and
leaves the locks as they were. -/
def Yields
    (program : Program κ σ α) (locks : Locks κ) (s : σ) (result : Result α) (s' : σ) : Prop :=
  ∀ log, ∃ log', program.run ⟨locks, log, s⟩ = some (result, ⟨locks, log', s'⟩)

theorem Yields.eq_of_run
    {program : Program κ σ α} {result result' : Result α} {m m' : Machine κ σ}
    (h : program.Yields m.locks m.state result s')
    (hrun : program.run m = some (result', m')) :
    result' = result ∧ m'.locks = m.locks ∧ m'.state = s' := by
  obtain ⟨log', hlog⟩ := h m.log
  rw [hlog] at hrun
  cases hrun
  exact ⟨rfl, rfl, rfl⟩

theorem Yields.exists_run
    {program : Program κ σ α} {result : Result α} {m : Machine κ σ}
    (h : program.Yields m.locks m.state result s') :
    ∃ m', program.run m = some (result, m') ∧ m'.locks = m.locks ∧ m'.state = s' := by
  obtain ⟨log', hlog⟩ := h m.log
  exact ⟨_, hlog, rfl, rfl⟩

theorem yields_ofResult (result : Result α) :
    (ofResult result : Program κ σ α).Yields locks s result s :=
  fun log => ⟨log, rfl⟩

theorem yields_ofResult_of_eq {result result' : Result α} (h : result = result') :
    (ofResult result : Program κ σ α).Yields locks s result' s :=
  h ▸ yields_ofResult result

theorem yields_pure (a : α) : (pure a : Program κ σ α).Yields locks s (.ok a) s :=
  fun log => ⟨log, rfl⟩

theorem yields_refuse (error : AllocError) :
    (refuse error : Program κ σ α).Yields locks s (.refuse error) s :=
  fun log => ⟨log, rfl⟩

theorem yields_report (event : Event) :
    (report event : Program κ σ Unit).Yields locks s (.ok ()) s :=
  fun log => ⟨log.push event, rfl⟩

theorem yields_inspect (f : σ → α) :
    (inspect f : Program κ σ α).Yields locks s (.ok (f s)) s :=
  fun log => ⟨log, rfl⟩

theorem yields_update (f : σ → σ) :
    (update f : Program κ σ Unit).Yields locks s (.ok ()) (f s) :=
  fun log => ⟨log, rfl⟩

theorem yields_critical
    {body : Section σ α} {result : Result α} (h : body.perform s = (result, s')) :
    (critical body : Program κ σ α).Yields locks s result s' := by
  intro log
  refine ⟨log, ?_⟩
  simp [critical, run, h]

theorem Yields.bind
    {program : Program κ σ α} {next : α → Program κ σ β} {a : α} {result : Result β}
    (h : program.Yields locks s (.ok a) s')
    (hnext : (next a).Yields locks s' result s'') :
    (program >>= next).Yields locks s result s'' := by
  intro log
  obtain ⟨log', hrun⟩ := h log
  obtain ⟨log'', hrun'⟩ := hnext log'
  refine ⟨log'', ?_⟩
  change (program.bind next).run _ = _
  rw [run_bind, hrun]
  exact hrun'

theorem Yields.bind_error
    {program : Program κ σ α} {next : α → Program κ σ β} {failure : Failure}
    (h : program.Yields locks s (.error failure) s') :
    (program >>= next).Yields locks s (.error failure) s' := by
  intro log
  obtain ⟨log', hrun⟩ := h log
  refine ⟨log', ?_⟩
  change (program.bind next).run _ = _
  rw [run_bind, hrun]

theorem Yields.attempt
    {program : Program κ σ α} {result : Result α} (h : program.Yields locks s result s') :
    program.attempt.Yields locks s (.ok result) s' := by
  intro log
  obtain ⟨log', hrun⟩ := h log
  refine ⟨log', ?_⟩
  rw [run_attempt, hrun]
  rfl

theorem Yields.outcome_ok
    {program : Program κ σ α} {a : α} (h : program.Yields locks s (.ok a) s') :
    program.outcome.Yields locks s (.ok (.ok a)) s' :=
  h.attempt.bind (yields_pure _)

theorem Yields.outcome_refused
    {program : Program κ σ α} {error : AllocError}
    (h : program.Yields locks s (.refuse error) s') :
    program.outcome.Yields locks s (.ok (.error error)) s' :=
  h.attempt.bind (yields_pure _)

theorem Yields.outcome_fault
    {program : Program κ σ α} {fault : Fault}
    (h : program.Yields locks s (.fault fault) s') :
    program.outcome.Yields locks s (.fault fault) s' :=
  h.attempt.bind (yields_ofResult (.fault fault))

/-- Catching refusals changes only how a run's result is reported. -/
theorem run_outcome (program : Program κ σ α) (m : Machine κ σ) :
    program.outcome.run m = (program.run m).map fun (result, m') =>
      match result with
      | .ok a => (.ok (.ok a), m')
      | .error (.refused error) => (.ok (.error error), m')
      | .error (.fault fault) => (.error (.fault fault), m') := by
  change (program.attempt.bind _).run m = _
  rw [run_bind, run_attempt]
  match program.run m with
  | none => rfl
  | some (.ok a, m') => rfl
  | some (.error (.refused error), m') => rfl
  | some (.error (.fault fault), m') => rfl

theorem Yields.withLock
    {name : κ} {body : Program κ σ α} {result : Result α}
    (hfree : locks.IsFree name) (h : body.Yields (locks.taking name) s result s') :
    (withLock name body).Yields locks s result s' := by
  intro log
  obtain ⟨log', hrun⟩ := h.attempt log
  refine ⟨log', ?_⟩
  simp only [Program.withLock, run, Locks.acquire?_of_isFree hfree,
    Locks.put_held_of_isFree hfree]
  change (body.attempt.bind _).run _ = _
  rw [run_bind, hrun]
  change Program.run (.release name _) _ = _
  simp only [run, Locks.release_taking, Locks.put_free_taking hfree]
  rfl

theorem Yields.within
    {focus : Focus τ σ} {program : Program κ σ α} {result : Result α} (rebuild : σ → τ)
    (hfocus : ∀ s, focus (rebuild s) = some (s, rebuild))
    (h : program.Yields locks s result s') :
    (program.within focus).Yields locks (rebuild s) result (rebuild s') := by
  intro log
  obtain ⟨log', hrun⟩ := h log
  refine ⟨log', ?_⟩
  rw [run_within hfocus, hrun]
  rfl

/-! ## What is left of a program -/

/-- A program that delivers alone has ended or can go on. -/
theorem advance_of_run
    {program : Program κ σ α} {m : Machine κ σ} {out : Result α × Machine κ σ}
    (h : program.run m = some out) :
    (∃ result, program = .done result) ∨ ∃ out', program.advance m = some out' := by
  obtain ⟨locks, log, s⟩ := m
  cases program with
  | done result => exact Or.inl ⟨result, rfl⟩
  | step act next =>
      cases hact : act s with
      | none => simp [run, hact] at h
      | some out => exact Or.inr ⟨_, by rw [advance, hact, Option.map_some]⟩
  | acquire name next =>
      cases hlock : (locks.lock name).acquire? with
      | none => simp [run, hlock] at h
      | some lock => exact Or.inr ⟨_, by rw [advance, hlock, Option.map_some]⟩
  | tryAcquire name next => exact Or.inr ⟨_, rfl⟩
  | release name next => exact Or.inr ⟨_, rfl⟩
  | emit event next => exact Or.inr ⟨_, rfl⟩

/-- One program is what is left of another after its next piece. -/
def Follows (rest program : Program κ σ α) : Prop :=
  ∃ m m', program.advance m = some (rest, m')

/-- No program goes on for ever. -/
theorem wellFounded_follows : WellFounded (Follows : Program κ σ α → Program κ σ α → Prop) := by
  refine ⟨fun program => ?_⟩
  induction program with
  | done result =>
      refine ⟨_, ?_⟩
      rintro rest ⟨m, m', h⟩
      cases h
  | step act next ih =>
      refine ⟨_, ?_⟩
      rintro rest ⟨m, m', h⟩
      obtain ⟨out, -, hout⟩ := Option.map_eq_some_iff.1 h
      cases hout
      exact ih out.1
  | acquire name next ih =>
      refine ⟨_, ?_⟩
      rintro rest ⟨m, m', h⟩
      obtain ⟨lock, -, hout⟩ := Option.map_eq_some_iff.1 h
      cases hout
      exact ih
  | tryAcquire name next ih =>
      refine ⟨_, ?_⟩
      rintro rest ⟨m, m', h⟩
      cases h
      exact ih _
  | release name next ih =>
      refine ⟨_, ?_⟩
      rintro rest ⟨m, m', h⟩
      cases h
      exact ih _
  | emit event next ih =>
      refine ⟨_, ?_⟩
      rintro rest ⟨m, m', h⟩
      cases h
      exact ih

end Program

end KernelMemory
