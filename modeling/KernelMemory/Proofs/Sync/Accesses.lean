import KernelMemory.Proofs.Sync.Callers

/-!
# Accesses of a write-once cell

What is left of a call is one of a few programs, and the call either has claimed
the cell (`Owns`) or has not (`Aside`).  The main statements say what the next
access does then: `Aside.advance`, that it changes nothing or claims an empty
cell; `Owns.advance`, that it writes the value that is still missing, publishes
the value written, or leaves the cell alone.
-/

namespace KernelMemory.OnceCell

open Program

variable {κ α β τ : Type}

/-! ## What is left of a call -/

/-- Waits for the published value and answers with it. -/
def awaiting (answer : α → β) : Program κ (Site α τ) β := do
  let value ← awaitValue Site.cellPart
  return answer value

def publishing (answer : α → β) : Program κ (Site α τ) β := do
  within Site.cellPart (update publish)
  awaiting answer

/-- Writes a value and publishes it. -/
def storing (value : α) (answer : α → β) : Program κ (Site α τ) β := do
  within Site.cellPart (update (write value))
  publishing answer

/-- Stores the value that an initialiser gives. -/
def initialising (init : Initialiser α τ) : Program κ (Site α τ) α := do
  let value ← init.program
  storing value id

/-- Starts an initialiser. -/
def starting (init : Initialiser α τ) : Program κ (Site α τ) α := do
  update Site.start
  initialising init

/-- Notes the answer to a call of an initialiser, which then goes on. -/
def noting (answer : Nested α) (init : Initialiser α τ) : Program κ (Site α τ) α := do
  update (Site.note answer)
  initialising init

def put (cell : OnceCell α) (m : Machine κ (Site α τ)) : Machine κ (Site α τ) :=
  { m with state.cell := cell }

/-! ## Calls that have claimed the cell, and the others -/

/-- An operation that stores a value, and what it answers when it has. -/
inductive Stores : (op : Operation α τ) → α → (α → op.Answer) → Prop
  | set (value : α) : Stores (.set value) value (Except.ok : α → Except α α)
  | getOrInit (init : Initialiser α τ) (value : α) : Stores (.getOrInit init) value (id : α → α)

/-- The call has claimed the cell, and has still to publish a value. -/
inductive Owns (s : Site α τ) : Call κ α τ → Prop
  | starting (init : Initialiser α τ) (hcell : s.cell = .writing none)
      (hstarted : s.started = 0) :
      Owns s ⟨.getOrInit init, some .empty, starting init⟩
  | initialising (init inner : Initialiser α τ) (hcell : s.cell = .writing none) :
      Owns s ⟨.getOrInit init, some .empty, initialising inner⟩
  | noting (init : Initialiser α τ) (answer : Nested α) (inner : Initialiser α τ)
      (hcell : s.cell = .writing none) (hrefused : answer.Refused) :
      Owns s ⟨.getOrInit init, some .empty, noting answer inner⟩
  | storing (value : α) (hcell : s.cell = .writing none) :
      Owns s ⟨.set value, some .empty, storing value Except.ok⟩
  | publishing {op : Operation α τ} {value : α} {answer : α → op.Answer}
      (hstores : Stores op value answer) (hcell : s.cell = .writing (some value)) :
      Owns s ⟨op, some .empty, publishing answer⟩

/-- The call has not claimed the cell, or has published its value. -/
inductive Aside (published : α → Prop) (unusable : Prop) : Call κ α τ → Prop
  | fresh (op : Operation α τ) : Aside published unusable (.fresh op)
  | waiting (init : Initialiser α τ) (found : OnceCell α) :
      Aside published unusable ⟨.getOrInit init, some found, awaiting id⟩
  | stored (value : α) (hpublished : published value) :
      Aside published unusable ⟨.set value, some .empty, awaiting Except.ok⟩
  | ended {op : Operation α τ} {found : OnceCell α} {result : Result op.Answer}
      (hresult : Explained published unusable op found result) :
      Aside published unusable ⟨op, some found, .done result⟩

variable {published published' : α → Prop} {unusable unusable' : Prop}

theorem Explained.mono
    {op : Operation α τ} {found : OnceCell α} {result : Result op.Answer}
    (h : Explained published unusable op found result)
    (hpublished : ∀ value, published value → published' value) (hunusable : unusable → unusable') :
    Explained published' unusable' op found result := by
  cases op with
  | isInitialized => exact ⟨h.1, fun value hfound => hpublished value (h.2 value hfound)⟩
  | get => exact ⟨h.1, fun value hfound => hpublished value (h.2 value hfound)⟩
  | set value =>
      rcases h with ⟨hfound, hresult, hvalue⟩ | hrejected
      · exact Or.inl ⟨hfound, hresult, hpublished value hvalue⟩
      · exact Or.inr hrejected
  | getOrInit init =>
      rcases h with ⟨value, hresult, hvalue⟩ | ⟨text, hresult, hfailed⟩
      · exact Or.inl ⟨value, hresult, hpublished value hvalue⟩
      · exact Or.inr ⟨text, hresult, hunusable hfailed⟩

theorem Explained.rejected
    {e : Ended α τ} (h : Explained published unusable e.op e.found e.result)
    (hpublished : ∀ value, ¬ published value) : e.Rejected := by
  obtain ⟨op, found, result⟩ := e
  cases op with
  | isInitialized =>
      obtain ⟨hresult, hvalue⟩ := h
      cases found with
      | empty => exact hresult
      | writing => exact hresult
      | ready value => exact absurd (hvalue value rfl) (hpublished value)
  | get =>
      obtain ⟨hresult, hvalue⟩ := h
      cases found with
      | empty => exact hresult
      | writing => exact hresult
      | ready value => exact absurd (hvalue value rfl) (hpublished value)
  | set value =>
      rcases h with ⟨-, -, hvalue⟩ | ⟨-, hresult⟩
      · exact absurd hvalue (hpublished value)
      · exact hresult
  | getOrInit init =>
      rcases h with ⟨value, -, hvalue⟩ | ⟨text, hresult, -⟩
      · exact absurd hvalue (hpublished value)
      · exact ⟨_, hresult⟩

theorem Explained.of_error
    {op : Operation α τ} {found : OnceCell α} {failure : Failure}
    (h : Explained published unusable op found (.error failure)) : unusable := by
  cases op with
  | isInitialized => cases h.1
  | get => cases h.1
  | set value =>
      rcases h with ⟨-, hok, -⟩ | ⟨-, hok⟩
      · cases hok
      · cases hok
  | getOrInit init =>
      rcases h with ⟨value, hok, -⟩ | ⟨text, -, hfault⟩
      · cases hok
      · exact hfault

theorem Aside.mono
    {call : Call κ α τ} (h : Aside published unusable call)
    (hpublished : ∀ value, published value → published' value) (hunusable : unusable → unusable') :
    Aside published' unusable' call := by
  cases h with
  | fresh op => exact .fresh op
  | waiting init found => exact .waiting init found
  | stored value hvalue => exact .stored value (hpublished value hvalue)
  | ended hresult => exact .ended (hresult.mono hpublished hunusable)

theorem Owns.writing {s : Site α τ} {call : Call κ α τ} (h : Owns s call) :
    ∃ value, s.cell = .writing value := by
  cases h with
  | starting init hcell => exact ⟨none, hcell⟩
  | initialising init inner hcell => exact ⟨none, hcell⟩
  | noting init answer inner hcell => exact ⟨none, hcell⟩
  | storing value hcell => exact ⟨none, hcell⟩
  | publishing hstores hcell => exact ⟨_, hcell⟩

theorem Owns.outside {s : Site α τ} {call : Call κ α τ} (h : Owns s call) (other : τ) :
    Owns { s with other } call := by
  cases h with
  | starting init hcell hstarted => exact .starting init hcell hstarted
  | initialising init inner hcell => exact .initialising init inner hcell
  | noting init answer inner hcell hrefused => exact .noting init answer inner hcell hrefused
  | storing value hcell => exact .storing value hcell
  | publishing hstores hcell => exact .publishing hstores hcell

/-- The call that has claimed the cell ends only with a panic. -/
theorem Owns.of_done
    {s : Site α τ} {op : Operation α τ} {found : OnceCell α} {result : Result op.Answer}
    (h : Owns s (⟨op, some found, .done result⟩ : Call κ α τ)) :
    s.cell = .writing none ∧ ∀ published : α → Prop, Explained published True op found result := by
  generalize hcall : (⟨op, some found, .done result⟩ : Call κ α τ) = call at h
  cases h with
  | starting init hcell => cases hcall
  | initialising init inner hcell =>
      cases inner with
      | panic text =>
          cases hcall
          exact ⟨hcell, fun _ => Or.inr ⟨text, rfl, trivial⟩⟩
      | give value => cases hcall
      | isInitialized next => cases hcall
      | get next => cases hcall
      | set value next => cases hcall
      | elsewhere act next => cases hcall
  | noting init answer inner hcell => cases hcall
  | storing value hcell => cases hcall
  | publishing hstores hcell => cases hcall

theorem Aside.of_done
    {op : Operation α τ} {found : OnceCell α} {result : Result op.Answer}
    (h : Aside published unusable (⟨op, some found, .done result⟩ : Call κ α τ)) :
    Explained published unusable op found result := by
  generalize hcall : (⟨op, some found, .done result⟩ : Call κ α τ) = call at h
  cases h with
  | fresh op => cases hcall
  | waiting init found => cases hcall
  | stored value hvalue => cases hcall
  | ended hresult =>
      cases hcall
      exact hresult

/-- The three changes that a cell may go through. -/
inductive Grows : OnceCell α → OnceCell α → Prop
  | claim : Grows .empty (.writing none)
  | write (value : α) : Grows (.writing none) (.writing (some value))
  | publish (value : α) : Grows (.writing (some value)) (.ready value)

theorem Grows.past_eq {cell cell' : OnceCell α} (h : Grows cell cell') :
    cell'.past = cell.past ++ [cell'] := by
  cases h <;> rfl

theorem value?_eq_some_iff {cell : OnceCell α} {value : α} :
    cell.value? = some value ↔ cell = .ready value := by
  cases cell <;> simp [value?]

/-! ## The next access -/

variable [DecidableEq κ] (m : Machine κ (Site α τ))

theorem advance_awaiting (answer : α → β) :
    (awaiting answer).advance m =
      m.state.cell.value?.map fun value => (.done (.ok (answer value)), m) := by
  obtain ⟨locks, log, ⟨cell, other, started, seen, nested⟩⟩ := m
  cases cell with
  | empty => rfl
  | writing => rfl
  | ready => rfl

theorem eq_of_advance_awaiting
    {answer : α → β} {rest : Program κ (Site α τ) β} {m' : Machine κ (Site α τ)}
    (hadvance : (awaiting answer).advance m = some (rest, m')) :
    ∃ value, m.state.cell = .ready value ∧ rest = .done (.ok (answer value)) ∧ m' = m := by
  rw [advance_awaiting] at hadvance
  obtain ⟨value, hvalue, heq⟩ := Option.map_eq_some_iff.1 hadvance
  cases heq
  exact ⟨value, value?_eq_some_iff.1 hvalue, rfl, rfl⟩

theorem advance_set_of_empty (hcell : m.state.cell = .empty) (value : α) :
    (OnceCell.set Site.cellPart value).advance m =
      some (storing value Except.ok, put (.writing none) m) := by
  obtain ⟨locks, log, ⟨cell, other, started, seen, nested⟩⟩ := m
  cases hcell
  rfl

theorem advance_set_of_ne (hcell : m.state.cell ≠ .empty) (value : α) :
    (OnceCell.set Site.cellPart value).advance m = some (.done (.ok (.error value)), m) := by
  obtain ⟨locks, log, ⟨cell, other, started, seen, nested⟩⟩ := m
  cases cell with
  | empty => exact absurd rfl hcell
  | writing => rfl
  | ready => rfl

theorem advance_getOrInit_of_empty (hcell : m.state.cell = .empty) (init : Initialiser α τ) :
    (OnceCell.getOrInit Site.cellPart (do update Site.start; init.program)).advance m =
      some (starting init, put (.writing none) m) := by
  obtain ⟨locks, log, ⟨cell, other, started, seen, nested⟩⟩ := m
  cases hcell
  refine congrArg some (Prod.ext ?_ rfl)
  change Program.bind (Program.bind (Program.bind (Program.bind _ _) _) _) _ = starting init
  rw [bind_assoc, bind_assoc, bind_assoc]
  rfl

theorem advance_getOrInit_of_ne (hcell : m.state.cell ≠ .empty) (init : Initialiser α τ) :
    (OnceCell.getOrInit Site.cellPart (do update Site.start; init.program)).advance m =
      some (awaiting id, m) := by
  obtain ⟨locks, log, ⟨cell, other, started, seen, nested⟩⟩ := m
  cases cell with
  | empty => exact absurd rfl hcell
  | writing => rfl
  | ready => rfl

theorem advance_initialising
    {init : Initialiser α τ} {rest : Program κ (Site α τ) α} {m' : Machine κ (Site α τ)}
    (hcell : m.state.cell = .writing none)
    (hadvance : (initialising init).advance m = some (rest, m')) :
    (∃ value, rest = publishing id ∧ m' = put (.writing (some value)) m) ∨
    (∃ answer inner, answer.Refused ∧ rest = noting answer inner ∧
      m' = { m with state := m.state.watch }) ∨
    ∃ inner other, rest = initialising inner ∧ m' = { m with state.other := other } := by
  obtain ⟨locks, log, ⟨cell, other, started, seen, nested⟩⟩ := m
  cases hcell
  cases init with
  | give value =>
      cases hadvance
      exact Or.inl ⟨value, rfl, rfl⟩
  | panic text => cases hadvance
  | isInitialized next =>
      cases hadvance
      exact Or.inr (Or.inl ⟨.isInitialized false, next false, rfl, rfl, rfl⟩)
  | get next =>
      cases hadvance
      exact Or.inr (Or.inl ⟨.get none, next none, rfl, rfl, rfl⟩)
  | set value next =>
      cases hadvance
      exact Or.inr (Or.inl ⟨.set value (.error value), next (.error value), rfl, rfl, rfl⟩)
  | elsewhere act next =>
      obtain ⟨⟨b, s⟩, hact, heq⟩ := Option.map_eq_some_iff.1 hadvance
      obtain ⟨⟨b, other⟩, -, hact⟩ := Option.map_eq_some_iff.1 hact
      cases hact
      cases heq
      exact Or.inr (Or.inr ⟨next b, other, rfl, rfl⟩)

/-- An access of a call that has not claimed the cell changes nothing, or claims
an empty cell. -/
theorem Aside.advance
    {call : Call κ α τ} (h : Aside published unusable call)
    (hready : ∀ value, m.state.cell = .ready value → published value)
    (hpublished : ∀ value, published value → m.state.cell = .ready value)
    {rest : Program κ (Site α τ) call.op.Answer} {m' : Machine κ (Site α τ)}
    (hadvance : call.program.advance m = some (rest, m')) :
    (m' = m ∧ Aside published unusable (call.next m.state.cell rest)) ∨
    (m.state.cell = .empty ∧ m' = put (.writing none) m ∧
      (m.state.started = 0 → Owns m'.state (call.next m.state.cell rest))) := by
  cases h with
  | fresh op =>
      cases op with
      | isInitialized =>
          cases hadvance
          exact Or.inl ⟨rfl, .ended ⟨rfl, hready⟩⟩
      | get =>
          cases hadvance
          exact Or.inl ⟨rfl, .ended ⟨rfl, hready⟩⟩
      | set value =>
          by_cases hempty : m.state.cell = .empty
          · cases (advance_set_of_empty m hempty value).symm.trans hadvance
            refine Or.inr ⟨hempty, rfl, fun _ => ?_⟩
            rw [hempty]
            exact .storing value rfl
          · cases (advance_set_of_ne m hempty value).symm.trans hadvance
            exact Or.inl ⟨rfl, .ended (Or.inr ⟨hempty, rfl⟩)⟩
      | getOrInit init =>
          by_cases hempty : m.state.cell = .empty
          · cases (advance_getOrInit_of_empty m hempty init).symm.trans hadvance
            refine Or.inr ⟨hempty, rfl, fun hstarted => ?_⟩
            rw [hempty]
            exact .starting init rfl hstarted
          · cases (advance_getOrInit_of_ne m hempty init).symm.trans hadvance
            exact Or.inl ⟨rfl, .waiting init _⟩
  | waiting init found =>
      obtain ⟨value, hcell, rfl, rfl⟩ := eq_of_advance_awaiting m hadvance
      exact Or.inl ⟨rfl, .ended (Or.inl ⟨value, rfl, hready value hcell⟩)⟩
  | stored value hvalue =>
      obtain ⟨value', hcell, rfl, rfl⟩ := eq_of_advance_awaiting m hadvance
      rw [hpublished value hvalue] at hcell
      cases hcell
      exact Or.inl ⟨rfl, .ended (Or.inl ⟨rfl, rfl, hvalue⟩)⟩
  | ended hresult => cases hadvance

/-- An access of the call that has claimed the cell.  It goes on, possibly with
the value written, or publishes the value. -/
theorem Owns.advance
    {call : Call κ α τ} (h : Owns m.state call) (horderly : m.state.Orderly)
    {rest : Program κ (Site α τ) call.op.Answer} {m' : Machine κ (Site α τ)}
    (hadvance : call.program.advance m = some (rest, m')) :
    m'.state.Orderly ∧
    ((Owns m'.state (call.next m.state.cell rest) ∧
        (m'.state.cell = m.state.cell ∨ Grows m.state.cell m'.state.cell)) ∨
      ∃ value, m.state.cell = .writing (some value) ∧ m'.state.cell = .ready value ∧
        Aside (· = value) False (call.next m.state.cell rest)) := by
  cases h with
  | starting init hcell hstarted =>
      cases hadvance
      exact ⟨horderly.start hstarted, Or.inl ⟨.initialising init init hcell, Or.inl rfl⟩⟩
  | initialising init inner hcell =>
      rcases advance_initialising m hcell hadvance with
        ⟨value, rfl, rfl⟩ | ⟨answer, inner, hrefused, rfl, rfl⟩ | ⟨inner, other, rfl, rfl⟩
      · refine ⟨horderly.withCell _, Or.inl ⟨.publishing (.getOrInit init value) rfl, Or.inr ?_⟩⟩
        rw [hcell]
        exact .write value
      · exact ⟨horderly.watch hcell,
          Or.inl ⟨.noting init answer inner hcell hrefused, Or.inl rfl⟩⟩
      · exact ⟨horderly.withOther other, Or.inl ⟨.initialising init inner hcell, Or.inl rfl⟩⟩
  | noting init answer inner hcell hrefused =>
      cases hadvance
      exact ⟨horderly.note hrefused, Or.inl ⟨.initialising init inner hcell, Or.inl rfl⟩⟩
  | storing value hcell =>
      cases hadvance
      have hwrite : m.state.cell.write value = .writing (some value) := by
        rw [hcell]
        rfl
      refine ⟨horderly.withCell _, Or.inl ⟨.publishing (.set value) hwrite, Or.inr ?_⟩⟩
      change Grows m.state.cell (m.state.cell.write value)
      rw [hwrite, hcell]
      exact .write value
  | @publishing op value answer hstores hcell =>
      cases hadvance
      refine ⟨horderly.withCell _, Or.inr ⟨value, hcell, ?_, ?_⟩⟩
      · change m.state.cell.publish = .ready value
        rw [hcell]
        rfl
      · cases hstores with
        | set => exact .stored value rfl
        | getOrInit init => exact .waiting init .empty

/-- What the next access of a call may do to any cell, given what the cell of its
group is now. -/
inductive Access (now before : OnceCell α) : OnceCell α → Prop
  | load : Access now before before
  | claim : Access now before before.claim.2
  | write (value : α) (h : now = .writing none) : Access now before (before.write value)
  | publish (value : α) (h : now = .writing (some value)) : Access now before before.publish

theorem Aside.access
    {call : Call κ α τ} (h : Aside published unusable call) {before after : OnceCell α}
    (hturns : call.Turns before after) (now : OnceCell α) : Access now before after := by
  obtain ⟨m, rest, m', hadvance, rfl, rfl⟩ := hturns
  cases h with
  | fresh op =>
      cases op with
      | isInitialized =>
          cases hadvance
          exact .load
      | get =>
          cases hadvance
          exact .load
      | set value =>
          cases hadvance
          exact .claim
      | getOrInit init =>
          cases hadvance
          exact .claim
  | waiting init found =>
      obtain ⟨value, -, rfl, rfl⟩ := eq_of_advance_awaiting m hadvance
      exact .load
  | stored value hvalue =>
      obtain ⟨value', -, rfl, rfl⟩ := eq_of_advance_awaiting m hadvance
      exact .load
  | ended hresult => cases hadvance

theorem Owns.access
    {s : Site α τ} {call : Call κ α τ} (h : Owns s call) {before after : OnceCell α}
    (hturns : call.Turns before after) : Access s.cell before after := by
  obtain ⟨m, rest, m', hadvance, rfl, rfl⟩ := hturns
  cases h with
  | starting init hcell =>
      cases hadvance
      exact .load
  | initialising init inner hcell =>
      cases inner with
      | give value =>
          cases hadvance
          exact .write value hcell
      | panic text => cases hadvance
      | isInitialized next =>
          cases hadvance
          exact .load
      | get next =>
          cases hadvance
          exact .load
      | set value next =>
          cases hadvance
          exact .claim
      | elsewhere act next =>
          obtain ⟨⟨b, s⟩, hact, heq⟩ := Option.map_eq_some_iff.1 hadvance
          obtain ⟨⟨b, other⟩, -, hact⟩ := Option.map_eq_some_iff.1 hact
          cases hact
          cases heq
          exact .load
  | noting init answer inner hcell =>
      cases hadvance
      exact .load
  | storing value hcell =>
      cases hadvance
      exact .write value hcell
  | publishing hstores hcell =>
      cases hadvance
      exact .publish _ hcell

theorem Access.eq_of_write
    {now : OnceCell α} {value : α} (h : Access now (.writing none) (.writing (some value))) :
    now = .writing none := by
  generalize hafter : OnceCell.writing (some value) = after at h
  cases h with
  | load => cases hafter
  | claim => cases hafter
  | write value h => exact h
  | publish value h => cases hafter

theorem Access.eq_of_publish
    {now : OnceCell α} {value : α} (h : Access now (.writing (some value)) (.ready value)) :
    ∃ value', now = .writing (some value') := by
  generalize hafter : OnceCell.ready value = after at h
  cases h with
  | load => cases hafter
  | claim => cases hafter
  | write value h => cases hafter
  | publish value' h => exact ⟨value', h⟩

theorem Access.eq_empty {now before : OnceCell α} (h : Access now before .empty) :
    before = .empty := by
  generalize hafter : OnceCell.empty = after at h
  cases h with
  | load => rfl
  | claim =>
      cases before with
      | empty => cases hafter
      | writing => cases hafter
      | ready => cases hafter
  | write value h =>
      cases before with
      | empty => rfl
      | writing => cases hafter
      | ready => cases hafter
  | publish value h =>
      cases before with
      | empty => rfl
      | writing value? => cases value? <;> cases hafter
      | ready value => cases hafter

/-- Only initialisation waits. -/
theorem Aside.prompt
    {call : Call κ α τ} (h : Aside published unusable call)
    (hpublished : ∀ value, published value → m.state.cell = .ready value)
    (hop : ∀ init, call.op ≠ .getOrInit init) :
    (∃ result, call.program = .done result) ∨ (call.program.advance m).isSome := by
  cases h with
  | fresh op =>
      refine Or.inr ?_
      cases op with
      | isInitialized => rfl
      | get => rfl
      | set value => rfl
      | getOrInit init => exact absurd rfl (hop init)
  | waiting init found => exact absurd rfl (hop init)
  | stored value hvalue =>
      refine Or.inr ?_
      change ((awaiting Except.ok).advance m).isSome = true
      rw [advance_awaiting, hpublished value hvalue]
      rfl
  | ended hresult => exact Or.inl ⟨_, rfl⟩

theorem Owns.prompt
    {call : Call κ α τ} (h : Owns m.state call) (hop : ∀ init, call.op ≠ .getOrInit init) :
    (call.program.advance m).isSome := by
  cases h with
  | starting init => exact absurd rfl (hop init)
  | initialising init => exact absurd rfl (hop init)
  | noting init => exact absurd rfl (hop init)
  | storing value => rfl
  | publishing hstores => rfl

end KernelMemory.OnceCell
