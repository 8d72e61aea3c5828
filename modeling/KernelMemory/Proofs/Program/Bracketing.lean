import KernelMemory.Program.Basic

/-!
# Bracketed locking

Whether a program takes and frees locks in order can be read off its pieces,
whatever the state is.  `Program.Bracketed` asks for locks to be taken from
lower to higher rank only, and to be freed last taken first; `Balanced` asks
besides for all locks taken to be free in the end, however the program ends.
Steps have to be possible in every state, so that a bracketed program waits for
nothing but locks.

There is one rule for each way of composing.
-/

namespace KernelMemory.Program

variable {κ σ τ α β : Type} {rank : κ → Nat} {held after : List κ}

/-- Holding `held`, the program takes and frees locks in order, and in the end
holds `after`. -/
def Bracketed (rank : κ → Nat) (after : List κ) : List κ → Program κ σ α → Prop
  | held, .done _ => held = after
  | held, .step act next => (∀ s, (act s).isSome) ∧ ∀ b, (next b).Bracketed rank after held
  | held, .acquire name next =>
      (∀ other ∈ held, rank other < rank name) ∧ next.Bracketed rank after (name :: held)
  | _, .tryAcquire .. => False
  | held, .release name next =>
      ∃ rest, held = name :: rest ∧ (next (.ok ())).Bracketed rank after rest
  | held, .emit _ next => next.Bracketed rank after held

/-- Holding `held`, the program takes and frees locks in order, and in the end
holds what it held at first. -/
def Balanced (rank : κ → Nat) (held : List κ) (program : Program κ σ α) : Prop :=
  program.Bracketed rank held held

/-! ## Composing -/

theorem Bracketed.attempt_bind
    {mid : List κ} {program : Program κ σ α} {next : Result α → Program κ σ β}
    (h : program.Bracketed rank mid held)
    (hnext : ∀ result, (next result).Bracketed rank after mid) :
    (program.attempt.bind next).Bracketed rank after held := by
  induction program generalizing held with
  | done result =>
      cases h
      exact hnext result
  | step act rest ih => exact ⟨h.1, fun b => ih b (h.2 b)⟩
  | acquire name rest ih => exact ⟨h.1, ih h.2⟩
  | tryAcquire name rest ih => exact h
  | release name rest ih =>
      obtain ⟨held', rfl, hrest⟩ := h
      exact ⟨held', rfl, ih (.ok ()) hrest⟩
  | emit event rest ih => exact ih h

theorem Bracketed.bind
    {program : Program κ σ α} {next : α → Program κ σ β}
    (h : program.Bracketed rank after held) (hnext : ∀ a, (next a).Balanced rank after) :
    (program.bind next).Bracketed rank after held := by
  induction program generalizing held with
  | done result =>
      cases h
      match result with
      | .ok a => exact hnext a
      | .error failure => exact rfl
  | step act rest ih => exact ⟨h.1, fun b => ih b (h.2 b)⟩
  | acquire name rest ih => exact ⟨h.1, ih h.2⟩
  | tryAcquire name rest ih => exact h
  | release name rest ih =>
      obtain ⟨held', rfl, hrest⟩ := h
      exact ⟨held', rfl, ih (.ok ()) hrest⟩
  | emit event rest ih => exact ih h

theorem Balanced.bind
    {program : Program κ σ α} {next : α → Program κ σ β}
    (h : program.Balanced rank held) (hnext : ∀ a, (next a).Balanced rank held) :
    (program >>= next).Balanced rank held :=
  Bracketed.bind h hnext

theorem Balanced.outcome {program : Program κ σ α} (h : program.Balanced rank held) :
    program.outcome.Balanced rank held := by
  refine Bracketed.attempt_bind h fun result => ?_
  match result with
  | .ok a => exact rfl
  | .error (.refused error) => exact rfl
  | .error (.fault fault) => exact rfl

theorem Balanced.withLock
    {name : κ} {body : Program κ σ α} (hrank : ∀ other ∈ held, rank other < rank name)
    (h : body.Balanced rank (name :: held)) : (withLock name body).Balanced rank held := by
  refine ⟨hrank, Bracketed.attempt_bind h fun result => ?_⟩
  exact ⟨held, rfl, rfl⟩

theorem Balanced.within
    {focus : Focus τ σ} {program : Program κ σ α} (hfocus : ∀ t, (focus t).isSome)
    (h : program.Balanced rank held) : (within focus program).Balanced rank held := by
  suffices hwithin : ∀ held', program.Bracketed rank held held' →
      (Program.within focus program).Bracketed rank held held' from hwithin held h
  clear h
  induction program with
  | done result => exact fun held' h => h
  | step act rest ih =>
      refine fun held' h => ⟨fun t => ?_, fun b => ih b held' (h.2 b)⟩
      obtain ⟨part, hpart⟩ := Option.isSome_iff_exists.1 (hfocus t)
      obtain ⟨out, hout⟩ := Option.isSome_iff_exists.1 (h.1 part.1)
      simp [hpart, hout]
  | acquire name rest ih => exact fun held' h => ⟨h.1, ih _ h.2⟩
  | tryAcquire name rest ih => exact fun held' h => h
  | release name rest ih =>
      rintro held' ⟨held'', rfl, h⟩
      exact ⟨held'', rfl, ih (.ok ()) held'' h⟩
  | emit event rest ih => exact fun held' h => ih held' h

/-! ## Single pieces -/

theorem balanced_ofResult (result : Result α) :
    (ofResult result : Program κ σ α).Balanced rank held := rfl

theorem balanced_pure (a : α) : (pure a : Program κ σ α).Balanced rank held := rfl

theorem balanced_refuse (error : AllocError) :
    (refuse error : Program κ σ α).Balanced rank held := rfl

theorem balanced_report (event : Event) :
    (report event : Program κ σ Unit).Balanced rank held := rfl

theorem balanced_inspect (f : σ → α) : (inspect f : Program κ σ α).Balanced rank held :=
  ⟨fun _ => rfl, fun _ => rfl⟩

theorem balanced_update (f : σ → σ) : (update f : Program κ σ Unit).Balanced rank held :=
  ⟨fun _ => rfl, fun _ => rfl⟩

theorem balanced_critical (body : Section σ α) :
    (critical body : Program κ σ α).Balanced rank held :=
  ⟨fun _ => rfl, fun _ => rfl⟩

end KernelMemory.Program
