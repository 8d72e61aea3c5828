import KernelMemory.Program.Run

/-!
# Interleavings

Several contexts share a state.  A stepper says what a context does next; in
each step of a configuration one context does that, and which one is up to the
scheduler.  `Config.Reaches` relates a configuration to everything that some
schedule makes of it, and `Config.settle` follows one fair schedule, in which
the contexts take turns.

Programs are interleaved by `Program.advance`.
-/

namespace KernelMemory

universe u v

/-- What a context in a local state does next to the shared state; nothing if
it has ended or has to wait. -/
abbrev Stepper (σ : Type u) (ℓ : Type v) := ℓ → σ → Option (ℓ × σ)

/-- A shared state and the local states of all contexts. -/
structure Config (σ : Type u) (ℓ : Type v) where
  shared : σ
  contexts : List ℓ

namespace Config

variable {σ : Type u} {ℓ : Type v}

/-- The configuration after a step of the context numbered `i`. -/
def stepAt (step : Stepper σ ℓ) (c : Config σ ℓ) (i : Nat) : Option (Config σ ℓ) :=
  match c.contexts[i]? with
  | none => none
  | some here =>
      match step here c.shared with
      | none => none
      | some (next, shared) => some ⟨shared, c.contexts.set i next⟩

/-- Some schedule leads from one configuration to the other. -/
inductive Reaches (step : Stepper σ ℓ) (start : Config σ ℓ) : Config σ ℓ → Prop where
  | refl : Reaches step start start
  | tail {c d : Config σ ℓ} (i : Nat)
      (before : Reaches step start c)
      (last : c.stepAt step i = some d) :
      Reaches step start d

/-- Whether any context can take a step. -/
def canMove (step : Stepper σ ℓ) (c : Config σ ℓ) : Bool :=
  c.contexts.any fun here => (step here c.shared).isSome

/-- One turn for each of the first `n` contexts that can move. -/
def turns (step : Stepper σ ℓ) : Nat → Config σ ℓ → Config σ ℓ
  | 0, c => c
  | n + 1, c =>
      let c := c.turns step n
      (c.stepAt step n).getD c

/-- Lets the contexts take turns until none can move, for at most `rounds`
rounds. -/
def settle (step : Stepper σ ℓ) : (rounds : Nat) → Config σ ℓ → Config σ ℓ
  | 0, c => c
  | rounds + 1, c =>
      if c.canMove step then (c.turns step c.contexts.length).settle step rounds else c

theorem Reaches.trans
    {step : Stepper σ ℓ} {a b c : Config σ ℓ}
    (hab : Reaches step a b) (hbc : Reaches step b c) :
    Reaches step a c := by
  induction hbc with
  | refl => exact hab
  | tail i _ last ih => exact ih.tail i last

theorem reaches_turns (step : Stepper σ ℓ) (n : Nat) (c : Config σ ℓ) :
    Reaches step c (c.turns step n) := by
  induction n with
  | zero => exact .refl
  | succ n ih =>
      cases h : (c.turns step n).stepAt step n with
      | none => simpa [turns, h] using ih
      | some d => simpa [turns, h] using ih.tail n h

theorem reaches_settle (step : Stepper σ ℓ) (rounds : Nat) (c : Config σ ℓ) :
    Reaches step c (c.settle step rounds) := by
  induction rounds generalizing c with
  | zero => exact .refl
  | succ rounds ih =>
      unfold settle
      split
      · exact (reaches_turns step _ c).trans (ih _)
      · exact .refl

end Config

namespace Program

variable {κ σ α : Type} [DecidableEq κ]

/-- The stepper of programs on a machine. -/
def stepper : Stepper (Machine κ σ) (Program κ σ α) := advance

/-- Lets programs take turns until all have ended or wait. -/
def takeTurns (rounds : Nat) (m : Machine κ σ) (programs : List (Program κ σ α)) :
    Config (Machine κ σ) (Program κ σ α) :=
  Config.settle stepper rounds ⟨m, programs⟩

end Program

/-- The results of the programs that have delivered, in order. -/
def Config.delivered {κ σ α : Type}
    (c : Config (Machine κ σ) (Program κ σ α)) : List α :=
  c.contexts.filterMap fun program =>
    match program with
    | .done (.ok a) => some a
    | _ => none

end KernelMemory
