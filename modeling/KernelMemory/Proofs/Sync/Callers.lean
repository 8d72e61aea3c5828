import Mathlib.Data.Nat.Notation
import Mathlib.Logic.Function.Basic
import Mathlib.Logic.Relation
import KernelMemory.Program.Run
import KernelMemory.Sync.OnceCell

/-!
# Callers of a write-once cell

Any number of contexts call one cell, call after call, and the pieces of their
calls are interleaved in any order.  An initialiser may call the cell that it
initialises, may do anything to the state around the cell, and ends with a value
or a panic.

A `Group` is executable: `Group.after?` is its next configuration.  It notes
what a reader of the code cannot see in the cell itself: what a call found at its
first access, how every call ended, how many initialisers have started, and what
their own calls of the cell found and were answered.
-/

namespace KernelMemory.OnceCell

open Program

variable {ι κ α τ : Type}

/-- The cells that a cell has been, the latest one last. -/
def past : OnceCell α → List (OnceCell α)
  | .empty => [.empty]
  | .writing none => [.empty, .writing none]
  | .writing (some value) => [.empty, .writing none, .writing (some value)]
  | .ready value => [.empty, .writing none, .writing (some value), .ready value]

/-! ## The cell and what is around it -/

/-- A call that an initialiser has made of its own cell, and the answer. -/
inductive Nested (α : Type) where
  | isInitialized (answer : Bool)
  | get (answer : Option α)
  | set (value : α) (answer : Except α α)

/-- The answers of a cell that has no value and takes none. -/
def Nested.Refused : Nested α → Prop
  | .isInitialized answer => answer = false
  | .get answer => answer = none
  | .set value answer => answer = .error value

/-- A cell, the state around it, and what was noted of initialisers. -/
structure Site (α τ : Type) where
  cell : OnceCell α
  other : τ
  /-- How many initialisers have started. -/
  started : ℕ
  /-- The cell as the calls of initialisers found it. -/
  seen : List (OnceCell α)
  nested : List (Nested α)

namespace Site

def fresh (other : τ) : Site α τ := ⟨.empty, other, 0, [], []⟩

def start (s : Site α τ) : Site α τ := { s with started := s.started + 1 }

/-- Notes how a call of an initialiser was answered. -/
def note (answer : Nested α) (s : Site α τ) : Site α τ :=
  { s with nested := s.nested ++ [answer] }

/-- Notes the cell as a call of an initialiser finds it. -/
def watch (s : Site α τ) : Site α τ := { s with seen := s.seen ++ [s.cell] }

def cellPart : Focus (Site α τ) (OnceCell α) :=
  fun s => some (s.cell, fun cell => { s with cell })

/-- The cell, as initialisers work on it. -/
def watchedPart : Focus (Site α τ) (OnceCell α) :=
  fun s => some (s.cell, fun cell => { s.watch with cell })

/-- What was noted of initialisers is in order. -/
structure Orderly (s : Site α τ) : Prop where
  started : s.started ≤ 1
  seen : ∀ cell ∈ s.seen, cell = .writing none
  nested : ∀ answer ∈ s.nested, answer.Refused

namespace Orderly

variable {s : Site α τ}

theorem withCell (h : s.Orderly) (cell : OnceCell α) : { s with cell }.Orderly :=
  ⟨h.started, h.seen, h.nested⟩

theorem withOther (h : s.Orderly) (other : τ) : { s with other }.Orderly :=
  ⟨h.started, h.seen, h.nested⟩

theorem start (h : s.Orderly) (hstarted : s.started = 0) : s.start.Orderly where
  started := Nat.le_of_eq (congrArg (· + 1) hstarted)
  seen := h.seen
  nested := h.nested

theorem watch (h : s.Orderly) (hcell : s.cell = .writing none) : s.watch.Orderly where
  started := h.started
  seen := by
    intro cell hseen
    rcases List.mem_append.1 hseen with hseen | hseen
    · exact h.seen cell hseen
    · rw [List.mem_singleton.1 hseen, hcell]
  nested := h.nested

theorem note {answer : Nested α} (h : s.Orderly) (hrefused : answer.Refused) :
    (s.note answer).Orderly where
  started := h.started
  seen := h.seen
  nested := by
    intro answer' hanswer
    rcases List.mem_append.1 hanswer with hanswer | hanswer
    · exact h.nested answer' hanswer
    · rw [List.mem_singleton.1 hanswer]
      exact hrefused

end Orderly

end Site

/-! ## Calls -/

/-- What an initialiser does. -/
inductive Initialiser (α τ : Type) : Type 1 where
  | give (value : α)
  | panic (text : String)
  | isInitialized (next : Bool → Initialiser α τ)
  | get (next : Option α → Initialiser α τ)
  | set (value : α) (next : Except α α → Initialiser α τ)
  /-- An indivisible step on the state around the cell, for which the
  initialiser may have to wait. -/
  | elsewhere {β : Type} (act : τ → Option (β × τ)) (next : β → Initialiser α τ)

def Initialiser.program : Initialiser α τ → Program κ (Site α τ) α
  | .give value => return value
  | .panic text => fault (.raised text)
  | .isInitialized next => do
      let answer ← OnceCell.isInitialized Site.watchedPart
      update (Site.note (.isInitialized answer))
      (next answer).program
  | .get next => do
      let answer ← OnceCell.get Site.watchedPart
      update (Site.note (.get answer))
      (next answer).program
  | .set value next => do
      let answer ← OnceCell.set Site.watchedPart value
      update (Site.note (.set value answer))
      (next answer).program
  | .elsewhere act next =>
      .step (fun s => (act s.other).map fun (b, other) => (b, { s with other }))
        fun b => (next b).program

/-- What a context may ask of a cell. -/
inductive Operation (α τ : Type) : Type 1 where
  | isInitialized
  | get
  | set (value : α)
  | getOrInit (init : Initialiser α τ)

namespace Operation

def Answer : Operation α τ → Type
  | .isInitialized => Bool
  | .get => Option α
  | .set _ => Except α α
  | .getOrInit _ => α

def program : (op : Operation α τ) → Program κ (Site α τ) op.Answer
  | .isInitialized => OnceCell.isInitialized Site.cellPart
  | .get => OnceCell.get Site.cellPart
  | .set value => OnceCell.set Site.cellPart value
  | .getOrInit init =>
      OnceCell.getOrInit Site.cellPart do
        update Site.start
        init.program

end Operation

/-- A call that a context is in. -/
structure Call (κ α τ : Type) : Type 1 where
  op : Operation α τ
  /-- The cell as the call found it at its first access. -/
  found : Option (OnceCell α)
  /-- What is left to do. -/
  program : Program κ (Site α τ) op.Answer

namespace Call

def fresh (op : Operation α τ) : Call κ α τ := ⟨op, none, op.program⟩

/-- A call after its next access, which found `cell`. -/
def next (call : Call κ α τ) (cell : OnceCell α) (rest : Program κ (Site α τ) call.op.Answer) :
    Call κ α τ :=
  ⟨call.op, some (call.found.getD cell), rest⟩

/-- In some state, the next piece of the call turns one cell into the other. -/
def Turns [DecidableEq κ] (call : Call κ α τ) (before after : OnceCell α) : Prop :=
  ∃ m rest m', call.program.advance m = some (rest, m') ∧
    m.state.cell = before ∧ m'.state.cell = after

end Call

structure Ended (α τ : Type) : Type 1 where
  op : Operation α τ
  /-- The cell as the call found it at its first access. -/
  found : OnceCell α
  result : Result op.Answer

/-- How a call ends: the result fits the cell as the call found it, and a value
that it got or stored is the one published.  An initialiser that panics leaves
the cell unusable. -/
def Explained (published : α → Prop) (unusable : Prop) :
    (op : Operation α τ) → OnceCell α → Result op.Answer → Prop
  | .isInitialized, found, result =>
      result = .ok found.isReady ∧ ∀ value, found = .ready value → published value
  | .get, found, result =>
      result = .ok found.value? ∧ ∀ value, found = .ready value → published value
  | .set value, found, result =>
      (found = .empty ∧ result = .ok (.ok value) ∧ published value) ∨
        (found ≠ .empty ∧ result = .ok (.error value))
  | .getOrInit _, _, result =>
      (∃ value, result = .ok value ∧ published value) ∨
        (∃ text, result = .error (.fault (.raised text)) ∧ unusable)

/-- An answer of a cell that has no value and takes none, or a fault. -/
def Ended.Rejected : Ended α τ → Prop
  | ⟨.isInitialized, _, result⟩ => result = .ok false
  | ⟨.get, _, result⟩ => result = .ok none
  | ⟨.set value, _, result⟩ => result = .ok (.error value)
  | ⟨.getOrInit _, _, result⟩ => ∃ failure, result = .error failure

/-! ## Groups -/

/-- A machine with a cell, the calls that contexts are in, and those that have
ended. -/
structure Group (ι κ α τ : Type) : Type 1 where
  machine : Machine κ (Site α τ)
  callers : ι → Option (Call κ α τ)
  ended : List (Ended α τ)

/-- What happens next in a group. -/
inductive Move (ι α τ : Type) : Type 1 where
  /-- A context that is in no call starts one. -/
  | start (i : ι) (op : Operation α τ)
  /-- A context does the next piece of its call. -/
  | advance (i : ι)
  /-- A context leaves a call that has ended. -/
  | leave (i : ι)
  /-- Others change the state around the cell. -/
  | outside (other : τ)

namespace Group

def fresh (locks : Locks κ) (log : Array Event) (other : τ) : Group ι κ α τ :=
  ⟨⟨locks, log, .fresh other⟩, fun _ => none, []⟩

/-- The cell and the state around it. -/
abbrev site (c : Group ι κ α τ) : Site α τ := c.machine.state

abbrev cell (c : Group ι κ α τ) : OnceCell α := c.site.cell

variable [DecidableEq ι] [DecidableEq κ]

/-- The group after a move, if that can be made. -/
def after? (c : Group ι κ α τ) : Move ι α τ → Option (Group ι κ α τ)
  | .start i op =>
      match c.callers i with
      | none => some { c with callers := Function.update c.callers i (some (.fresh op)) }
      | some _ => none
  | .advance i =>
      match c.callers i with
      | none => none
      | some call =>
          (call.program.advance c.machine).map fun (rest, machine) =>
            { c with
              machine, callers := Function.update c.callers i (some (call.next c.cell rest)) }
  | .leave i =>
      match c.callers i with
      | some ⟨op, some found, .done result⟩ =>
          some { c with
            callers := Function.update c.callers i none
            ended := c.ended ++ [⟨op, found, result⟩] }
      | _ => none
  | .outside other => some { c with machine.state.other := other }

/-- The group after some moves, if they can be made. -/
def perform? (moves : List (Move ι α τ)) (c : Group ι κ α τ) : Option (Group ι κ α τ) :=
  moves.foldlM after? c

/-- An initialiser has panicked, so that a call has ended in a fault. -/
def Panicked (c : Group ι κ α τ) : Prop :=
  (∃ i op found failure, c.callers i = some ⟨op, some found, .done (.error failure)⟩) ∨
    ∃ e ∈ c.ended, ∃ failure, e.result = .error failure

/-- One move leads from one configuration to the other. -/
def Step (c d : Group ι κ α τ) : Prop := ∃ move, c.after? move = some d

theorem Step.cases {c d : Group ι κ α τ} (h : c.Step d) :
    (∃ i op, c.callers i = none ∧
      d = { c with callers := Function.update c.callers i (some (.fresh op)) }) ∨
    (∃ i call rest machine, c.callers i = some call ∧
      call.program.advance c.machine = some (rest, machine) ∧
      d = { c with
        machine, callers := Function.update c.callers i (some (call.next c.cell rest)) }) ∨
    (∃ i op found result, c.callers i = some ⟨op, some found, .done result⟩ ∧
      d = { c with
        callers := Function.update c.callers i none, ended := c.ended ++ [⟨op, found, result⟩] }) ∨
    ∃ other, d = { c with machine.state.other := other } := by
  obtain ⟨move, hmove⟩ := h
  cases move with
  | start i op =>
      simp only [after?] at hmove
      split at hmove
      next hcall =>
        cases hmove
        exact Or.inl ⟨i, op, hcall, rfl⟩
      · cases hmove
  | advance i =>
      simp only [after?] at hmove
      split at hmove
      · cases hmove
      next call hcall =>
        obtain ⟨⟨rest, machine⟩, hadvance, rfl⟩ := Option.map_eq_some_iff.1 hmove
        exact Or.inr (Or.inl ⟨i, call, rest, machine, hcall, hadvance, rfl⟩)
  | leave i =>
      simp only [after?] at hmove
      split at hmove
      next op found result hcall =>
        cases hmove
        exact Or.inr (Or.inr (Or.inl ⟨i, op, found, result, hcall, rfl⟩))
      · cases hmove
  | outside other =>
      cases hmove
      exact Or.inr (Or.inr (Or.inr ⟨other, rfl⟩))

/-- A run from a fresh cell, with the cells that the cell has been. -/
inductive Runs (locks : Locks κ) (log : Array Event) (other : τ) :
    Group ι κ α τ → List (OnceCell α) → Prop
  | start : Runs locks log other (.fresh locks log other) [.empty]
  | quiet {c d : Group ι κ α τ} {history : List (OnceCell α)}
      (before : Runs locks log other c history) (last : c.Step d) (same : d.cell = c.cell) :
      Runs locks log other d history
  | change {c d : Group ι κ α τ} {history : List (OnceCell α)}
      (before : Runs locks log other c history) (last : c.Step d) (differs : d.cell ≠ c.cell) :
      Runs locks log other d (history ++ [d.cell])

end Group

variable [DecidableEq κ]

/-- The cell of a group was written at most once, and every call of it can tell. -/
structure WrittenOnce (c : Group ι κ α τ) (history : List (OnceCell α)) : Prop where
  /-- The cell has been claimed, written and published at most once, in that
  order, and has not changed otherwise. -/
  history_eq : history = c.cell.past
  /-- A value is written only when none has been. -/
  stores : ∀ i call value, c.callers i = some call →
    call.Turns (.writing none) (.writing (some value)) → c.cell = .writing none
  /-- A value is published only when one has been written. -/
  publishes : ∀ i call value, c.callers i = some call →
    call.Turns (.writing (some value)) (.ready value) → ∃ value', c.cell = .writing (some value')
  /-- No access would make a cell empty again. -/
  empties : ∀ i call before, c.callers i = some call → call.Turns before .empty → before = .empty
  ended : ∀ e ∈ c.ended,
    Explained (c.cell = .ready ·) (c.cell = .writing none) e.op e.found e.result
  orderly : c.site.Orderly
  /-- Only initialisation ever waits. -/
  prompt : ∀ i call, c.callers i = some call → (∀ init, call.op ≠ .getOrInit init) →
    (∃ result, call.program = .done result) ∨ (call.program.advance c.machine).isSome
  dropped : (c.cell.isReady = false ∧ c.cell.drop = []) ∨
    ∃ value, c.cell = .ready value ∧ c.cell.drop = [value]
  /-- When no call is left, a value that was written is dropped with the cell. -/
  kept : (∀ i, c.callers i = none) → ∀ value, .writing (some value) ∈ history →
    c.cell = .ready value

end KernelMemory.OnceCell
