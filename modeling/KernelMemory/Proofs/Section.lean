import KernelMemory.Section

/-!
# What a section does

A section is described by its result and the state it leaves.  There is one
rule for each way of composing sections.  A section `Respects` a relation if it
moves every state along it, also when it fails.
-/

namespace KernelMemory

namespace Section

variable {σ τ α β : Type}

@[simp] theorem perform_pure (a : α) (s : σ) :
    perform (pure a : Section σ α) s = (.ok a, s) := rfl

@[simp] theorem perform_modify (f : σ → σ) (s : σ) :
    perform (modify f : Section σ Unit) s = (.ok (), f s) := rfl

@[simp] theorem perform_lift (result : Result α) (s : σ) :
    perform (liftM result : Section σ α) s = (result, s) :=
  perform_ofPerform _ s

@[simp] theorem perform_zoom
    (part : τ → σ) (putBack : τ → σ → τ) (body : Section σ α) (t : τ) :
    (body.zoom part putBack).perform t =
      ((body.perform (part t)).1, putBack t (body.perform (part t)).2) := by
  rw [zoom, perform_ofPerform]

theorem perform_zoom_of
    {part : τ → σ} {putBack : τ → σ → τ} {body : Section σ α} {t : τ} {result : Result α} {s : σ}
    (h : body.perform (part t) = (result, s)) :
    (body.zoom part putBack).perform t = (result, putBack t s) := by
  rw [perform_zoom, h]

@[simp] theorem perform_attempt (body : Section σ α) (s : σ) :
    body.attempt.perform s = (.ok (body.perform s).1, (body.perform s).2) := by
  rw [attempt, perform_ofPerform]

theorem perform_bind_ok
    {body : Section σ α} {next : α → Section σ β} {s s' : σ} {a : α}
    (h : perform body s = (.ok a, s')) :
    perform (body >>= next) s = perform (next a) s' := by
  simp only [perform, EStateM.run] at h ⊢
  simp only [bind, EStateM.bind]
  cases hbody : body s with
  | ok b t =>
      rw [hbody] at h
      cases h
      rfl
  | error failure t =>
      rw [hbody] at h
      cases h

theorem perform_bind_error
    {body : Section σ α} {next : α → Section σ β} {s s' : σ} {failure : Failure}
    (h : perform body s = (.error failure, s')) :
    perform (body >>= next) s = (.error failure, s') := by
  simp only [perform, EStateM.run] at h ⊢
  simp only [bind, EStateM.bind]
  cases hbody : body s with
  | ok b t =>
      rw [hbody] at h
      cases h
  | error failure' t =>
      rw [hbody] at h
      cases h
      rfl

theorem perform_bind_pure
    {body : Section σ α} {next : α → Section σ β} (g : α → β) (hnext : ∀ a, next a = pure (g a))
    (s : σ) :
    perform (body >>= next) s = ((perform body s).1.map g, (perform body s).2) := by
  rcases hbody : perform body s with ⟨a | failure, s'⟩
  · rw [perform_bind_error hbody]
    rfl
  · rw [perform_bind_ok hbody, hnext]
    rfl

theorem perform_get_bind (next : σ → Section σ β) (s : σ) :
    perform (get >>= next) s = perform (next s) s := rfl

theorem perform_lift_bind_ok
    {result : Result α} {a : α} (next : α → Section σ β) (s : σ)
    (h : result = .ok a) :
    perform (liftM result >>= next) s = perform (next a) s := by
  subst h
  rfl

/-- However it ends, a section moves the state along a relation. -/
def Respects (R : σ → σ → Prop) (body : Section σ α) : Prop := ∀ s, R s (body.perform s).2

theorem Respects.bind
    {R : σ → σ → Prop} {body : Section σ α} {next : α → Section σ β} (h : body.Respects R)
    (hnext : ∀ a, (next a).Respects R) (htrans : ∀ a b c, R a b → R b c → R a c) :
    (body >>= next).Respects R := by
  intro s
  have hbody := h s
  rcases hrun : body.perform s with ⟨a | failure, s'⟩
  · rw [perform_bind_error hrun]
    rwa [hrun] at hbody
  · rw [perform_bind_ok hrun]
    rw [hrun] at hbody
    exact htrans _ _ _ hbody (hnext _ s')

/-- Asks the state something. -/
def asking (question : σ → Result α) : Section σ α := do
  question (← get)

theorem perform_asking (question : σ → Result α) (s : σ) :
    (asking question).perform s = (question s, s) :=
  perform_lift (question s) s

end Section

end KernelMemory
