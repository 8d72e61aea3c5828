import KernelMemory.Program.Run

/-!
# What a program leaves alone

A relation between states that every step of a program respects holds between
the start and the end of each of its runs, however the run ends.
`Program.Respects` is a recursion over the pieces of the program, so there is
one rule for each way of composing; `Respects.of_run` is what it is for.
-/

namespace KernelMemory.Program

variable {κ σ τ α β : Type} {R : σ → σ → Prop}

/-- Every step of a program moves the state along a relation. -/
def Respects (R : σ → σ → Prop) : Program κ σ α → Prop
  | .done _ => True
  | .step act next => (∀ s b s', act s = some (b, s') → R s s') ∧ ∀ b, (next b).Respects R
  | .acquire _ next => next.Respects R
  | .tryAcquire _ next => ∀ taken, (next taken).Respects R
  | .release _ next => ∀ freed, (next freed).Respects R
  | .emit _ next => next.Respects R

theorem Respects.attempt_bind
    {program : Program κ σ α} {next : Result α → Program κ σ β} (h : program.Respects R)
    (hnext : ∀ result, (next result).Respects R) : (program.attempt.bind next).Respects R := by
  induction program with
  | done result => exact hnext result
  | step act rest ih => exact ⟨h.1, fun b => ih b (h.2 b)⟩
  | acquire name rest ih => exact ih h
  | tryAcquire name rest ih => exact fun taken => ih taken (h taken)
  | release name rest ih => exact fun freed => ih freed (h freed)
  | emit event rest ih => exact ih h

theorem Respects.bind
    {program : Program κ σ α} {next : α → Program κ σ β} (h : program.Respects R)
    (hnext : ∀ a, (next a).Respects R) : (program >>= next).Respects R := by
  change (program.bind next).Respects R
  induction program with
  | done result =>
      match result with
      | .ok a => exact hnext a
      | .error failure => exact trivial
  | step act rest ih => exact ⟨h.1, fun b => ih b (h.2 b)⟩
  | acquire name rest ih => exact ih h
  | tryAcquire name rest ih => exact fun taken => ih taken (h taken)
  | release name rest ih => exact fun freed => ih freed (h freed)
  | emit event rest ih => exact ih h

theorem Respects.outcome {program : Program κ σ α} (h : program.Respects R) :
    program.outcome.Respects R := by
  refine Respects.attempt_bind h fun result => ?_
  match result with
  | .ok a => exact trivial
  | .error (.refused error) => exact trivial
  | .error (.fault fault) => exact trivial

theorem Respects.ensuring
    {body : Program κ σ α} {last : Program κ σ Unit} (h : body.Respects R)
    (hlast : last.Respects R) : (body.ensuring last).Respects R :=
  h.attempt_bind fun _ => hlast.bind fun _ => trivial

theorem Respects.within
    {S : τ → τ → Prop} {focus : Focus σ τ} {program : Program κ τ α} (h : program.Respects S)
    (hfocus : ∀ s t rebuild t', focus s = some (t, rebuild) → S t t' → R s (rebuild t')) :
    (within focus program).Respects R := by
  induction program with
  | done result => exact trivial
  | step act rest ih =>
      refine ⟨fun s b s' hs => ?_, fun b => ih b (h.2 b)⟩
      obtain ⟨⟨t, rebuild⟩, hpart, hact⟩ := Option.bind_eq_some_iff.1 hs
      obtain ⟨⟨b', t'⟩, hstep, hout⟩ := Option.map_eq_some_iff.1 hact
      cases hout
      exact hfocus s t rebuild t' hpart (h.1 t _ t' hstep)
  | acquire name rest ih => exact ih h
  | tryAcquire name rest ih => exact fun taken => ih taken (h taken)
  | release name rest ih => exact fun freed => ih freed (h freed)
  | emit event rest ih => exact ih h

theorem Respects.withLock {name : κ} {body : Program κ σ α} (h : body.Respects R) :
    (withLock name body).Respects R :=
  h.ensuring fun _ => trivial

theorem Respects.mono
    {S : σ → σ → Prop} {program : Program κ σ α} (h : program.Respects R)
    (himp : ∀ s s', R s s' → S s s') : program.Respects S := by
  induction program with
  | done result => exact trivial
  | step act rest ih => exact ⟨fun s b s' hs => himp s s' (h.1 s b s' hs), fun b => ih b (h.2 b)⟩
  | acquire name rest ih => exact ih h
  | tryAcquire name rest ih => exact fun taken => ih taken (h taken)
  | release name rest ih => exact fun freed => ih freed (h freed)
  | emit event rest ih => exact ih h

theorem respects_true (program : Program κ σ α) : program.Respects fun _ _ => True := by
  induction program with
  | done result => exact trivial
  | step act rest ih => exact ⟨fun _ _ _ _ => trivial, ih⟩
  | acquire name rest ih => exact ih
  | tryAcquire name rest ih => exact ih
  | release name rest ih => exact ih
  | emit event rest ih => exact ih

theorem respects_inspect (f : σ → α) :
    (inspect f : Program κ σ α).Respects fun s s' => s' = s := by
  refine ⟨fun s b s' hs => ?_, fun _ => trivial⟩
  cases hs
  rfl

theorem respects_critical
    {body : Section σ α} (h : ∀ s, R s (body.perform s).2) :
    (critical body : Program κ σ α).Respects R := by
  refine ⟨fun s b s' hs => ?_, fun _ => trivial⟩
  have hperform : body.perform s = (b, s') := Option.some.inj hs
  have hmoved := h s
  rwa [hperform] at hmoved

theorem Respects.of_run
    [DecidableEq κ] {program : Program κ σ α} {m m' : Machine κ σ} {result : Result α}
    (h : program.Respects R) (hrefl : ∀ s, R s s) (htrans : ∀ a b c, R a b → R b c → R a c)
    (hrun : program.run m = some (result, m')) : R m.state m'.state := by
  induction program generalizing m with
  | done result =>
      cases hrun
      exact hrefl _
  | step act rest ih =>
      obtain ⟨locks, log, s⟩ := m
      cases hact : act s with
      | none => simp [run, hact] at hrun
      | some out =>
          simp only [run, hact] at hrun
          have hrest := ih out.1 (h.2 out.1) hrun
          exact htrans _ _ _ (h.1 s out.1 out.2 hact) hrest
  | acquire name rest ih =>
      obtain ⟨locks, log, s⟩ := m
      cases hlock : (locks.lock name).acquire? with
      | none => simp [run, hlock] at hrun
      | some lock =>
          simp only [run, hlock] at hrun
          exact (ih h hrun :)
  | tryAcquire name rest ih =>
      obtain ⟨locks, log, s⟩ := m
      simp only [run] at hrun
      exact (ih _ (h _) hrun :)
  | release name rest ih =>
      obtain ⟨locks, log, s⟩ := m
      simp only [run] at hrun
      exact (ih _ (h _) hrun :)
  | emit event rest ih =>
      obtain ⟨locks, log, s⟩ := m
      simp only [run] at hrun
      exact (ih h hrun :)

end KernelMemory.Program
