import KernelMemory.Program.Basic

/-!
# Running a program

A machine is the shared state together with the locks and the log so far.
`Program.advance` performs the next piece of a program on it; `Program.run`
performs all of them, as happens when no other context is there.  The main
statements say what running does to each way of putting programs together: a
sequence, a caught failure, and a program on a part of the state.
-/

namespace KernelMemory

/-- Shared state, locks and log. -/
structure Machine (κ σ : Type) where
  locks : Locks κ
  log : Array Event
  state : σ

namespace Machine

variable {κ σ : Type}

/-- A machine whose locks are free and whose log is empty. -/
def fresh (kind : LockKind) (state : σ) : Machine κ σ := ⟨.free kind, #[], state⟩

end Machine

namespace Program

variable {κ σ α β : Type} [DecidableEq κ]

/-- Performs the next piece of a program; `none` when the program is done or
has to wait. -/
def advance : Program κ σ α → Machine κ σ → Option (Program κ σ α × Machine κ σ)
  | .done _, _ => none
  | .step act next, ⟨locks, log, state⟩ =>
      (act state).map fun (b, state) => (next b, ⟨locks, log, state⟩)
  | .acquire name next, ⟨locks, log, state⟩ =>
      (locks.lock name).acquire?.map fun lock => (next, ⟨locks.put name lock, log, state⟩)
  | .tryAcquire name next, ⟨locks, log, state⟩ =>
      let (taken, lock) := (locks.lock name).tryAcquire
      some (next taken, ⟨locks.put name lock, log, state⟩)
  | .release name next, ⟨locks, log, state⟩ =>
      let (freed, lock) := (locks.lock name).release
      some (next freed, ⟨locks.put name lock, log, state⟩)
  | .emit event next, ⟨locks, log, state⟩ => some (next, ⟨locks, log.push event, state⟩)

/-- Performs a whole program; `none` when it has to wait for a lock or a state
that nobody is left to provide. -/
def run : Program κ σ α → Machine κ σ → Option (Result α × Machine κ σ)
  | .done result, m => some (result, m)
  | .step act next, ⟨locks, log, state⟩ =>
      match act state with
      | some (b, state) => (next b).run ⟨locks, log, state⟩
      | none => none
  | .acquire name next, ⟨locks, log, state⟩ =>
      match (locks.lock name).acquire? with
      | some lock => next.run ⟨locks.put name lock, log, state⟩
      | none => none
  | .tryAcquire name next, ⟨locks, log, state⟩ =>
      let (taken, lock) := (locks.lock name).tryAcquire
      (next taken).run ⟨locks.put name lock, log, state⟩
  | .release name next, ⟨locks, log, state⟩ =>
      let (freed, lock) := (locks.lock name).release
      (next freed).run ⟨locks.put name lock, log, state⟩
  | .emit event next, ⟨locks, log, state⟩ => next.run ⟨locks, log.push event, state⟩

/-- Whether the program has ended, and how. -/
def result? : Program κ σ α → Option (Result α)
  | .done result => some result
  | _ => none

/-- A run performs the next piece and then the rest. -/
theorem run_of_advance
    {program rest : Program κ σ α} {m m' : Machine κ σ}
    (h : program.advance m = some (rest, m')) :
    program.run m = rest.run m' := by
  obtain ⟨locks, log, state⟩ := m
  cases program with
  | done result => simp [advance] at h
  | step act next =>
      cases hact : act state with
      | none => simp [advance, hact] at h
      | some out =>
          obtain ⟨rfl, rfl⟩ : next out.1 = rest ∧ _ = m' := by
            simpa [advance, hact] using h
          simp [run, hact]
  | acquire name next =>
      cases hlock : (locks.lock name).acquire? with
      | none => simp [advance, hlock] at h
      | some lock =>
          obtain ⟨rfl, rfl⟩ : next = rest ∧ _ = m' := by
            simpa [advance, hlock] using h
          simp [run, hlock]
  | tryAcquire name next =>
      obtain ⟨rfl, rfl⟩ : next _ = rest ∧ _ = m' := by
        simpa [advance] using h
      simp [run]
  | release name next =>
      obtain ⟨rfl, rfl⟩ : next _ = rest ∧ _ = m' := by
        simpa [advance] using h
      simp [run]
  | emit event next =>
      obtain ⟨rfl, rfl⟩ : next = rest ∧ _ = m' := by
        simpa [advance] using h
      simp [run]

/-- Running a sequence is running its parts one after the other. -/
theorem run_bind
    (program : Program κ σ α) (next : α → Program κ σ β) (m : Machine κ σ) :
    (program.bind next).run m =
      match program.run m with
      | some (.ok a, m') => (next a).run m'
      | some (.error failure, m') => some (.error failure, m')
      | none => none := by
  induction program generalizing m with
  | done result => cases result <;> rfl
  | step act rest ih =>
      obtain ⟨locks, log, state⟩ := m
      cases hact : act state with
      | none => simp [bind, run, hact]
      | some out => simp [bind, run, hact, ih]
  | acquire name rest ih =>
      obtain ⟨locks, log, state⟩ := m
      cases hlock : (locks.lock name).acquire? with
      | none => simp [bind, run, hlock]
      | some lock => simp [bind, run, hlock, ih]
  | tryAcquire name rest ih =>
      obtain ⟨locks, log, state⟩ := m
      simp [bind, run, ih]
  | release name rest ih =>
      obtain ⟨locks, log, state⟩ := m
      simp [bind, run, ih]
  | emit event rest ih =>
      obtain ⟨locks, log, state⟩ := m
      simp [bind, run, ih]

theorem run_attempt (program : Program κ σ α) (m : Machine κ σ) :
    program.attempt.run m = (program.run m).map fun (result, m') => (.ok result, m') := by
  induction program generalizing m with
  | done result => rfl
  | step act rest ih =>
      obtain ⟨locks, log, state⟩ := m
      cases hact : act state with
      | none => simp [attempt, run, hact]
      | some out => simp [attempt, run, hact, ih]
  | acquire name rest ih =>
      obtain ⟨locks, log, state⟩ := m
      cases hlock : (locks.lock name).acquire? with
      | none => simp [attempt, run, hlock]
      | some lock => simp [attempt, run, hlock, ih]
  | tryAcquire name rest ih =>
      obtain ⟨locks, log, state⟩ := m
      simp [attempt, run, ih]
  | release name rest ih =>
      obtain ⟨locks, log, state⟩ := m
      simp [attempt, run, ih]
  | emit event rest ih =>
      obtain ⟨locks, log, state⟩ := m
      simp [attempt, run, ih]

/-- A program on a part of the state runs as it does on the part alone, if
rebuilding the state with another part changes that part and nothing else. -/
theorem run_within
    {τ : Type} {focus : Focus τ σ} {rebuild : σ → τ}
    (hfocus : ∀ s, focus (rebuild s) = some (s, rebuild))
    (program : Program κ σ α) (locks : Locks κ) (log : Array Event) (s : σ) :
    (program.within focus).run ⟨locks, log, rebuild s⟩ =
      (program.run ⟨locks, log, s⟩).map fun (result, m) =>
        (result, ⟨m.locks, m.log, rebuild m.state⟩) := by
  induction program generalizing locks log s with
  | done result => rfl
  | step act rest ih =>
      cases hact : act s with
      | none => simp [within, run, hfocus, hact]
      | some out => simp [within, run, hfocus, hact, ih]
  | acquire name rest ih =>
      cases hlock : (locks.lock name).acquire? with
      | none => simp [within, run, hlock]
      | some lock => simp [within, run, hlock, ih]
  | tryAcquire name rest ih => simp [within, run, ih]
  | release name rest ih => simp [within, run, ih]
  | emit event rest ih => simp [within, run, ih]

end Program

end KernelMemory
