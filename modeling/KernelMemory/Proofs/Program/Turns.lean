import KernelMemory.Proofs.Program.Discipline
import Mathlib.Logic.Relation

/-!
# Turns between lock operations

When contexts take turns, it is enough to let them change over at the
operations on locks, and around the sections of one lock that is taken for a
single section at a time: the gate.  A turn takes a lock, runs one section of
the gate or frees a lock, and goes on with whatever the context does before the
next of these.

`Keeps.turn` says that a turn keeps a discipline, and where the context stands
after it.  Every turn leaves less of the program (`turn_follows`), and there is
no end to that only if a program goes on for ever, which none does.
-/

namespace KernelMemory.Program

variable {κ σ ℓ ε α : Type} [DecidableEq κ]

/-- Performs everything up to the next operation on a lock. -/
def settle : Program κ σ α → Machine κ σ → Program κ σ α × Machine κ σ
  | .step act next, ⟨locks, log, state⟩ =>
      match act state with
      | some (b, state) => (next b).settle ⟨locks, log, state⟩
      | none => (.step act next, ⟨locks, log, state⟩)
  | .emit event next, ⟨locks, log, state⟩ => next.settle ⟨locks, log.push event, state⟩
  | program, m => (program, m)

/-- Takes the gate and stops there; or performs the next piece and everything
up to the next operation on a lock. -/
def turn (gate : κ) (program : Program κ σ α) (m : Machine κ σ) :
    Option (Program κ σ α × Machine κ σ) :=
  match program with
  | .acquire name next =>
      (program.advance m).map fun out => if name = gate then out else next.settle out.2
  | _ => (program.advance m).map fun out => out.1.settle out.2

theorem exists_turn
    (gate : κ) {program : Program κ σ α} {m : Machine κ σ} {out : Program κ σ α × Machine κ σ}
    (h : program.advance m = some out) : ∃ out', program.turn gate m = some out' := by
  have hgo : ∃ out', (program.advance m).map (fun out => out.1.settle out.2) = some out' :=
    ⟨_, by rw [h, Option.map_some]⟩
  cases program with
  | acquire name next => exact ⟨_, by rw [turn, h, Option.map_some]⟩
  | done result => exact hgo
  | step act next => exact hgo
  | tryAcquire name next => exact hgo
  | release name next => exact hgo
  | emit event next => exact hgo

theorem run_settle (program : Program κ σ α) (m : Machine κ σ) :
    (program.settle m).1.run (program.settle m).2 = program.run m := by
  induction program generalizing m with
  | step act next ih =>
      obtain ⟨locks, log, s⟩ := m
      cases hact : act s with
      | none => simp only [settle, hact]
      | some out =>
          simp only [settle, run, hact]
          exact ih out.1 _
  | emit event next ih => exact ih _
  | done result => rfl
  | acquire name next ih => rfl
  | tryAcquire name next ih => rfl
  | release name next ih => rfl

/-- A turn takes the gate, or settles after the next piece. -/
theorem turn_cases
    {gate : κ} {program rest : Program κ σ α} {m m' : Machine κ σ}
    (h : program.turn gate m = some (rest, m')) :
    (program = .acquire gate rest ∧ program.advance m = some (rest, m')) ∨
      ∃ next out, program.advance m = some (next, out) ∧ next.settle out = (rest, m') := by
  have hgo (hmap : (program.advance m).map (fun out => out.1.settle out.2) = some (rest, m')) :
      ∃ next out, program.advance m = some (next, out) ∧ next.settle out = (rest, m') := by
    obtain ⟨⟨next, out⟩, hadvance, hout⟩ := Option.map_eq_some_iff.1 hmap
    exact ⟨next, out, hadvance, hout⟩
  cases program with
  | acquire name next =>
      obtain ⟨⟨next', out⟩, hadvance, hout⟩ := Option.map_eq_some_iff.1 h
      have hnext : next = next' := by
        obtain ⟨lock, -, hnext⟩ := Option.map_eq_some_iff.1 hadvance
        exact (Prod.mk.inj hnext).1
      subst hnext
      by_cases hgate : name = gate
      · subst hgate
        rw [if_pos rfl, Prod.mk.injEq] at hout
        obtain ⟨rfl, rfl⟩ := hout
        exact Or.inl ⟨rfl, hadvance⟩
      · rw [if_neg hgate] at hout
        exact Or.inr ⟨next, out, hadvance, hout⟩
  | done result => exact Or.inr (hgo h)
  | step act next => exact Or.inr (hgo h)
  | tryAcquire name next => exact Or.inr (hgo h)
  | release name next => exact Or.inr (hgo h)
  | emit event next => exact Or.inr (hgo h)

/-- A turn is a part of what the program does alone. -/
theorem run_of_turn
    {gate : κ} {program rest : Program κ σ α} {m m' : Machine κ σ}
    (h : program.turn gate m = some (rest, m')) : rest.run m' = program.run m := by
  rcases turn_cases h with ⟨-, hadvance⟩ | ⟨next, out, hadvance, hout⟩
  · exact (run_of_advance hadvance).symm
  · rw [run_of_advance hadvance, ← run_settle next out, hout]

/-! ## What a turn keeps -/

variable {D : Discipline κ σ ℓ ε} {own : ℓ} {env : ε}

/-- The program has ended or stands before an operation on a lock, with what it
may own there. -/
def Rests (D : Discipline κ σ ℓ ε) (own : ℓ) : Program κ σ α → Prop
  | .done _ => True
  | .acquire name _ => D.mayTake name own
  | .release name _ => D.mayFree name own
  | _ => D.mayWait own

theorem Keeps.settle
    {program : Program κ σ α} {post : Result α → ℓ → Prop} {m : Machine κ σ}
    (h : Keeps D own program post) (hinv : D.inv own env m.locks m.state) :
    ∃ own', D.inv own' env (program.settle m).2.locks (program.settle m).2.state ∧
      Keeps D own' (program.settle m).1 post ∧ Rests D own' (program.settle m).1 := by
  induction program generalizing own m with
  | done result => exact ⟨own, hinv, h, trivial⟩
  | step act next ih =>
      obtain ⟨locks, log, s⟩ := m
      rcases h env locks s hinv with ⟨hact, hwait⟩ | ⟨b, s', own', hact, hinv', hrest⟩
      · simp only [Program.settle, hact]
        exact ⟨own, hinv, h, hwait⟩
      · simp only [Program.settle, hact]
        exact ih b hrest hinv'
  | acquire name next ih => exact ⟨own, hinv, h, h.1⟩
  | tryAcquire name next ih => exact h.elim
  | release name next ih => exact ⟨own, hinv, h, h.1⟩
  | emit event next ih => exact ih h hinv

/-- A turn keeps the invariant, and after it the rest of the program keeps the
discipline.  It ends where the context rests, or right after taking the gate. -/
theorem Keeps.turn
    {gate : κ} {program rest : Program κ σ α} {post : Result α → ℓ → Prop}
    {m m' : Machine κ σ} (h : Keeps D own program post)
    (hinv : D.inv own env m.locks m.state) (hturn : program.turn gate m = some (rest, m')) :
    ∃ own', D.inv own' env m'.locks m'.state ∧ Keeps D own' rest post ∧
      (Rests D own' rest ∨ D.mayHold gate own') := by
  rcases turn_cases hturn with ⟨rfl, hadvance⟩ | ⟨next, out, hadvance, hout⟩
  · by_cases hfree : m.locks.IsFree gate
    · obtain ⟨own', hinv', hhold, hnext⟩ := h.2 env m.locks m.state hinv hfree
      simp only [Program.advance, Locks.acquire?_of_isFree hfree, Option.map_some,
        Locks.put_held_of_isFree hfree, Option.some.injEq, Prod.mk.injEq, true_and] at hadvance
      subst hadvance
      exact ⟨own', hinv', hnext, Or.inr hhold⟩
    · simp [Program.advance, Locks.acquire?_eq_none hfree] at hadvance
  · obtain ⟨own', hinv', hnext⟩ := Keeps.advance h hinv hadvance
    obtain ⟨own'', hinv'', hrest, hrests⟩ := Keeps.settle hnext hinv'
    rw [hout] at hinv'' hrest hrests
    exact ⟨own'', hinv'', hrest, Or.inl hrests⟩

/-! ## Less and less of a program -/

theorem settle_follows (program : Program κ σ α) (m : Machine κ σ) :
    Relation.ReflTransGen Follows (program.settle m).1 program := by
  induction program generalizing m with
  | step act next ih =>
      obtain ⟨locks, log, s⟩ := m
      cases hact : act s with
      | none =>
          simp only [settle, hact]
          exact .refl
      | some out =>
          simp only [settle, hact]
          refine (ih out.1 _).tail ⟨⟨locks, log, s⟩, ⟨locks, log, out.2⟩, ?_⟩
          simp [advance, hact]
  | emit event next ih => exact (ih _).tail ⟨m, _, rfl⟩
  | done result => exact .refl
  | acquire name next ih => exact .refl
  | tryAcquire name next ih => exact .refl
  | release name next ih => exact .refl

/-- A turn leaves less of the program. -/
theorem turn_follows
    {gate : κ} {program rest : Program κ σ α} {m m' : Machine κ σ}
    (h : program.turn gate m = some (rest, m')) : Relation.TransGen Follows rest program := by
  rcases turn_cases h with ⟨-, hadvance⟩ | ⟨next, out, hadvance, hout⟩
  · exact .single ⟨m, m', hadvance⟩
  · have hfollows := settle_follows next out
    rw [hout] at hfollows
    exact .tail' hfollows ⟨m, out, hadvance⟩

end KernelMemory.Program
