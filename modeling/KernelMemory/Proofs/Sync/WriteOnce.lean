import KernelMemory.Proofs.Sync.Accesses

/-!
# Cells are written once

Whoever calls a cell, and however the calls are interleaved, the cell is
claimed, written and published at most once.  The main statement is
`Group.Runs.cell_written_once`.  It rests on the phases that a group goes
through: at most one context has claimed the cell, and while it has, nobody has
seen a value.  `Sound.step` says what one move does to the phase, and that the
cell stays as it is or grows.
-/

namespace KernelMemory.OnceCell

variable {ι κ α τ : Type}

/-! ## Phases -/

/-- How far a group has come. -/
inductive Phase (ι α : Type) where
  /-- Nobody has claimed the cell. -/
  | vacant
  /-- A context has claimed the cell. -/
  | held (i : ι)
  /-- An initialiser has panicked. -/
  | stuck
  | settled (value : α)

namespace Phase

/-- The cell that a phase shows. -/
def Shows : Phase ι α → OnceCell α → Prop
  | .vacant, cell => cell = .empty
  | .held _, cell => ∃ value, cell = .writing value
  | .stuck, cell => cell = .writing none
  | .settled value, cell => cell = .ready value

/-- The cell may still change. -/
def Undecided : Phase ι α → Prop
  | .vacant | .held _ => True
  | .stuck | .settled _ => False

end Phase

/-- A group in some phase. -/
structure Sound (p : Phase ι α) (c : Group ι κ α τ) : Prop where
  shows : p.Shows c.cell
  orderly : c.site.Orderly
  started : p = .vacant → c.site.started = 0
  owner : ∀ i, p = .held i → ∃ call, c.callers i = some call ∧ Owns c.site call
  aside : ∀ i call, p ≠ .held i → c.callers i = some call →
    Aside (p = .settled ·) (p = .stuck) call
  ended : ∀ e ∈ c.ended, Explained (p = .settled ·) (p = .stuck) e.op e.found e.result

namespace Sound

variable {p p' : Phase ι α} {c : Group ι κ α τ} {i : ι} {x : Option (Call κ α τ)}
variable {m' : Machine κ (Site α τ)} {ended : List (Ended α τ)}

/-- What holds of a call while the cell is undecided goes on to hold. -/
theorem aside_of_undecided
    (h : Sound p c) (hp : p.Undecided) {j : ι} {call : Call κ α τ} (hj : p ≠ .held j)
    (hcall : c.callers j = some call) (p' : Phase ι α) :
    Aside (p' = .settled ·) (p' = .stuck) call := by
  refine (h.aside j call hj hcall).mono ?_ ?_
  · rintro value rfl
    exact hp.elim
  · rintro rfl
    exact hp.elim

theorem ended_of_undecided (h : Sound p c) (hp : p.Undecided) (p' : Phase ι α) :
    ∀ e ∈ c.ended, Explained (p' = .settled ·) (p' = .stuck) e.op e.found e.result := by
  intro e he
  refine (h.ended e he).mono ?_ ?_
  · rintro value rfl
    exact hp.elim
  · rintro rfl
    exact hp.elim

theorem ready_of_settled (h : Sound p c) {value : α} (hp : p = .settled value) :
    c.cell = .ready value := by
  subst hp
  exact h.shows

theorem settled_of_ready (h : Sound p c) {value : α} (hcell : c.cell = .ready value) :
    p = .settled value := by
  have hshows := h.shows
  rw [hcell] at hshows
  cases p with
  | vacant => cases hshows
  | held i => exact hshows.elim nofun
  | stuck => cases hshows
  | settled value' =>
      cases hshows
      rfl

theorem vacant_of_empty (h : Sound p c) (hcell : c.cell = .empty) : p = .vacant := by
  have hshows := h.shows
  rw [hcell] at hshows
  cases p with
  | vacant => rfl
  | held i => exact hshows.elim nofun
  | stuck => cases hshows
  | settled value => cases hshows

/-- When no call is left, no value waits to be published. -/
theorem ne_written (h : Sound p c) (hidle : ∀ i, c.callers i = none) (value : α) :
    c.cell ≠ .writing (some value) := by
  intro hcell
  have hshows := h.shows
  rw [hcell] at hshows
  cases p with
  | vacant => cases hshows
  | held i =>
      obtain ⟨call, hcall, -⟩ := h.owner i rfl
      rw [hidle i] at hcall
      cases hcall
  | stuck => cases hshows
  | settled value => cases hshows

theorem access
    [DecidableEq κ] (h : Sound p c) {call : Call κ α τ} (hcall : c.callers i = some call)
    {before after : OnceCell α} (hturns : call.Turns before after) :
    Access c.cell before after := by
  by_cases hi : p = .held i
  · obtain ⟨call', hcall', howns⟩ := h.owner i hi
    cases hcall'.symm.trans hcall
    exact howns.access hturns
  · exact (h.aside i call hi hcall).access hturns c.cell

theorem prompt
    [DecidableEq κ] (h : Sound p c) {call : Call κ α τ} (hcall : c.callers i = some call)
    (hop : ∀ init, call.op ≠ .getOrInit init) :
    (∃ result, call.program = .done result) ∨ (call.program.advance c.machine).isSome := by
  by_cases hi : p = .held i
  · obtain ⟨call', hcall', howns⟩ := h.owner i hi
    cases hcall'.symm.trans hcall
    exact Or.inr (howns.prompt c.machine hop)
  · exact (h.aside i call hi hcall).prompt c.machine (fun _ => h.ready_of_settled) hop

theorem writtenOnce [DecidableEq κ] (h : Sound p c) : WrittenOnce c c.cell.past where
  history_eq := rfl
  stores i call value hcall hturns := (h.access hcall hturns).eq_of_write
  publishes i call value hcall hturns := (h.access hcall hturns).eq_of_publish
  empties i call before hcall hturns := (h.access hcall hturns).eq_empty
  ended e he := by
    refine (h.ended e he).mono (fun _ => h.ready_of_settled) ?_
    rintro rfl
    exact h.shows
  orderly := h.orderly
  prompt i call hcall hop := h.prompt hcall hop
  dropped := by
    cases hcell : c.cell with
    | empty => exact Or.inl ⟨rfl, rfl⟩
    | writing => exact Or.inl ⟨rfl, rfl⟩
    | ready value => exact Or.inr ⟨value, rfl, rfl⟩
  kept := by
    intro hidle value hwritten
    cases hcell : c.cell with
    | empty => simp [hcell, past] at hwritten
    | writing written =>
        cases written with
        | none => simp [hcell, past] at hwritten
        | some value' => exact absurd hcell (h.ne_written hidle value')
    | ready value' => simpa [hcell, past, eq_comm] using hwritten

/-- A fault leaves the cell claimed, and nobody has got a value. -/
theorem rejected_of_panicked (h : Sound p c) (hpanicked : c.Panicked) :
    c.cell = .writing none ∧ ∀ e ∈ c.ended, e.Rejected := by
  have hrejected (hp : ∀ value, p ≠ .settled value) : ∀ e ∈ c.ended, e.Rejected :=
    fun e he => (h.ended e he).rejected hp
  have hstuck (hp : p = .stuck) : c.cell = .writing none ∧ ∀ e ∈ c.ended, e.Rejected := by
    subst hp
    exact ⟨h.shows, hrejected nofun⟩
  rcases hpanicked with ⟨i, op, found, failure, hcall⟩ | ⟨e, he, failure, hresult⟩
  · by_cases hi : p = .held i
    · obtain ⟨call, hcall', howns⟩ := h.owner i hi
      cases hcall.symm.trans hcall'
      refine ⟨howns.of_done.1, hrejected ?_⟩
      rw [hi]
      exact nofun
    · exact hstuck (h.aside i _ hi hcall).of_done.of_error
  · have hexplained := h.ended e he
    rw [hresult] at hexplained
    exact hstuck hexplained.of_error

theorem fresh (locks : Locks κ) (log : Array Event) (other : τ) :
    Sound .vacant (.fresh locks log other : Group ι κ α τ) where
  shows := rfl
  orderly := ⟨Nat.zero_le 1, nofun, nofun⟩
  started _ := rfl
  owner := nofun
  aside := nofun
  ended := nofun

variable [DecidableEq ι]

/-- One of the others goes on, and changes nothing. -/
theorem quiet
    (h : Sound p c) (hi : p ≠ .held i)
    (hx : ∀ call, x = some call → Aside (p = .settled ·) (p = .stuck) call)
    (hended : ∀ e ∈ ended, Explained (p = .settled ·) (p = .stuck) e.op e.found e.result) :
    Sound p ⟨c.machine, Function.update c.callers i x, ended⟩ where
  shows := h.shows
  orderly := h.orderly
  started := h.started
  owner j hj := by
    obtain ⟨call, hcall, howns⟩ := h.owner j hj
    have hne : j ≠ i := by
      rintro rfl
      exact hi hj
    exact ⟨call, (Function.update_of_ne hne _ _).trans hcall, howns⟩
  aside j call hj hcall := by
    change Function.update c.callers i x j = some call at hcall
    by_cases hji : j = i
    · subst hji
      rw [Function.update_self] at hcall
      exact hx call hcall
    · rw [Function.update_of_ne hji] at hcall
      exact h.aside j call hj hcall
  ended := hended

/-- The context that claims the cell or has claimed it goes on. -/
theorem moved
    (h : Sound p c) (hp : p = .vacant ∨ p = .held i)
    (hp' : p' ≠ .vacant) (hheld : ∀ j, p' = .held j → j = i)
    (hshows : p'.Shows m'.state.cell) (horderly : m'.state.Orderly)
    (howner : p' = .held i → ∃ call, x = some call ∧ Owns m'.state call)
    (haside : ∀ call, p' ≠ .held i → x = some call →
      Aside (p' = .settled ·) (p' = .stuck) call)
    (hended : ∀ e ∈ ended, Explained (p' = .settled ·) (p' = .stuck) e.op e.found e.result) :
    Sound p' ⟨m', Function.update c.callers i x, ended⟩ where
  shows := hshows
  orderly := horderly
  started := fun hvacant => absurd hvacant hp'
  owner j hj := by
    obtain rfl := hheld j hj
    obtain ⟨call, hcall, howns⟩ := howner hj
    exact ⟨call, (Function.update_self _ _ _).trans hcall, howns⟩
  aside j call hj hcall := by
    change Function.update c.callers i x j = some call at hcall
    by_cases hji : j = i
    · subst hji
      rw [Function.update_self] at hcall
      exact haside call hj hcall
    · rw [Function.update_of_ne hji] at hcall
      rcases hp with rfl | rfl
      · exact h.aside_of_undecided trivial nofun hcall p'
      · refine h.aside_of_undecided trivial ?_ hcall p'
        intro heq
        cases heq
        exact hji rfl
  ended := hended

theorem leave
    (h : Sound p c) {op : Operation α τ} {found : OnceCell α} {result : Result op.Answer}
    (hcall : c.callers i = some ⟨op, some found, .done result⟩) :
    ∃ p', Sound p' ⟨c.machine, Function.update c.callers i none,
      c.ended ++ [⟨op, found, result⟩]⟩ := by
  by_cases hi : p = .held i
  · obtain ⟨call', hcall', howns⟩ := h.owner i hi
    cases hcall'.symm.trans hcall
    subst hi
    obtain ⟨hcell, hexplained⟩ := howns.of_done
    refine ⟨.stuck, h.moved (Or.inr rfl) nofun nofun hcell h.orderly nofun nofun ?_⟩
    intro e he
    rcases List.mem_append.1 he with he | he
    · exact h.ended_of_undecided trivial _ e he
    · rw [List.mem_singleton.1 he]
      exact (hexplained _).mono (fun _ => id) fun _ => rfl
  · refine ⟨p, h.quiet hi nofun ?_⟩
    intro e he
    rcases List.mem_append.1 he with he | he
    · exact h.ended e he
    · rw [List.mem_singleton.1 he]
      exact (h.aside i _ hi hcall).of_done

variable {d : Group ι κ α τ} [DecidableEq κ]

theorem advance_of_held
    (h : Sound (.held i) c) {call : Call κ α τ} (hcall : c.callers i = some call)
    {rest : Program κ (Site α τ) call.op.Answer}
    (hadvance : call.program.advance c.machine = some (rest, m')) :
    ∃ p', Sound p' ⟨m', Function.update c.callers i (some (call.next c.cell rest)), c.ended⟩ ∧
      (m'.state.cell = c.cell ∨ Grows c.cell m'.state.cell) := by
  obtain ⟨call', hcall', howns⟩ := h.owner i rfl
  cases hcall'.symm.trans hcall
  obtain ⟨horderly, ⟨howns, hcell⟩ | ⟨value, hwritten, hready, haside⟩⟩ :=
    howns.advance c.machine h.orderly hadvance
  · refine ⟨.held i, h.moved (Or.inr rfl) nofun ?_ howns.writing horderly ?_ nofun h.ended, hcell⟩
    · intro j hj
      cases hj
      rfl
    · exact fun _ => ⟨_, rfl, howns⟩
  · refine ⟨.settled value, h.moved (Or.inr rfl) nofun nofun hready horderly nofun ?_ ?_, ?_⟩
    · intro call' _ heq
      cases heq
      refine haside.mono ?_ False.elim
      rintro value' rfl
      rfl
    · exact h.ended_of_undecided trivial _
    · have hcell : c.cell = .writing (some value) := hwritten
      rw [hready, hcell]
      exact Or.inr (.publish value)

theorem advance_of_aside
    (h : Sound p c) (hi : p ≠ .held i) {call : Call κ α τ} (hcall : c.callers i = some call)
    {rest : Program κ (Site α τ) call.op.Answer}
    (hadvance : call.program.advance c.machine = some (rest, m')) :
    ∃ p', Sound p' ⟨m', Function.update c.callers i (some (call.next c.cell rest)), c.ended⟩ ∧
      (m'.state.cell = c.cell ∨ Grows c.cell m'.state.cell) := by
  rcases (h.aside i call hi hcall).advance c.machine (fun _ => h.settled_of_ready)
      (fun _ => h.ready_of_settled) hadvance with
    ⟨rfl, haside⟩ | ⟨hempty, rfl, howns⟩
  · refine ⟨p, h.quiet hi ?_ h.ended, Or.inl rfl⟩
    intro call' heq
    cases heq
    exact haside
  · obtain rfl := h.vacant_of_empty hempty
    refine ⟨.held i, h.moved (Or.inl rfl) nofun ?_ ⟨none, rfl⟩ ?_ ?_ nofun ?_, Or.inr ?_⟩
    · intro j hj
      cases hj
      rfl
    · exact h.orderly.withCell _
    · exact fun _ => ⟨_, rfl, howns (h.started rfl)⟩
    · exact h.ended_of_undecided trivial _
    · have hcell : c.cell = .empty := hempty
      rw [hcell]
      exact .claim

/-- A group is in some phase after every move, and its cell has grown or is the
same. -/
theorem step (h : Sound p c) (hstep : c.Step d) :
    ∃ p', Sound p' d ∧ (d.cell = c.cell ∨ Grows c.cell d.cell) := by
  rcases hstep.cases with ⟨i, op, hcall, rfl⟩ | ⟨i, call, rest, machine, hcall, hadvance, rfl⟩ |
    ⟨i, op, found, result, hcall, rfl⟩ | ⟨other, rfl⟩
  · have hi : p ≠ .held i := by
      intro hi
      obtain ⟨call, hcall', -⟩ := h.owner i hi
      cases hcall.symm.trans hcall'
    refine ⟨p, h.quiet hi ?_ h.ended, Or.inl rfl⟩
    intro call heq
    cases heq
    exact .fresh op
  · by_cases hi : p = .held i
    · subst hi
      exact h.advance_of_held hcall hadvance
    · exact h.advance_of_aside hi hcall hadvance
  · obtain ⟨p', hsound⟩ := h.leave hcall
    exact ⟨p', hsound, Or.inl rfl⟩
  · refine ⟨p, ⟨h.shows, ?_, h.started, ?_, h.aside, h.ended⟩, Or.inl rfl⟩
    · exact h.orderly.withOther other
    · intro i hi
      obtain ⟨call, hcall, howns⟩ := h.owner i hi
      exact ⟨call, hcall, howns.outside other⟩

end Sound

/-! ## Runs -/

variable [DecidableEq ι] [DecidableEq κ] {locks : Locks κ} {log : Array Event} {other : τ}
variable {c d : Group ι κ α τ} {history : List (OnceCell α)}

theorem Group.Runs.sound (h : Group.Runs locks log other c history) :
    history = c.cell.past ∧ ∃ p, Sound p c := by
  induction h with
  | start => exact ⟨rfl, .vacant, .fresh locks log other⟩
  | @quiet c d history before last same ih =>
      obtain ⟨hhistory, p, hsound⟩ := ih
      obtain ⟨p', hsound', -⟩ := hsound.step last
      exact ⟨by rw [same, hhistory], p', hsound'⟩
  | @change c d history before last differs ih =>
      obtain ⟨hhistory, p, hsound⟩ := ih
      obtain ⟨p', hsound', hcell⟩ := hsound.step last
      refine ⟨?_, p', hsound'⟩
      rw [(hcell.resolve_left differs).past_eq, hhistory]

theorem Group.Runs.tail (h : Group.Runs locks log other c history) (hstep : c.Step d) :
    ∃ history', Group.Runs locks log other d history' := by
  by_cases hcell : d.cell = c.cell
  · exact ⟨history, .quiet h hstep hcell⟩
  · exact ⟨history ++ [d.cell], .change h hstep hcell⟩

theorem Group.Runs.perform?
    {moves : List (Move ι α τ)} (h : Group.Runs locks log other c history)
    (hmoves : c.perform? moves = some d) :
    ∃ history', Group.Runs locks log other d history' := by
  induction moves generalizing c history with
  | nil =>
      cases hmoves
      exact ⟨history, h⟩
  | cons move moves ih =>
      obtain ⟨c', hmove, hmoves⟩ := Option.bind_eq_some_iff.1 hmoves
      obtain ⟨history', h'⟩ := h.tail ⟨move, hmove⟩
      exact ih h' hmoves

theorem Group.Step.panicked (hstep : c.Step d) (h : c.Panicked) : d.Panicked := by
  rcases h with ⟨j, op, found, failure, hcall⟩ | ⟨e, he, hfault⟩
  · have hother {i : ι} (x : Option (Call κ α τ)) (hne : j ≠ i) :
        Function.update c.callers i x j = some ⟨op, some found, .done (.error failure)⟩ :=
      (Function.update_of_ne hne _ _).trans hcall
    rcases hstep.cases with ⟨i, op', hi, rfl⟩ | ⟨i, call, rest, machine, hi, hadvance, rfl⟩ |
      ⟨i, op', found', result, hi, rfl⟩ | ⟨other, rfl⟩
    · refine Or.inl ⟨j, op, found, failure, hother _ ?_⟩
      rintro rfl
      cases hcall.symm.trans hi
    · refine Or.inl ⟨j, op, found, failure, hother _ ?_⟩
      rintro rfl
      cases hcall.symm.trans hi
      cases hadvance
    · by_cases hne : j = i
      · subst hne
        cases hcall.symm.trans hi
        exact Or.inr ⟨_, List.mem_append_right _ (List.mem_singleton_self _), failure, rfl⟩
      · exact Or.inl ⟨j, op, found, failure, hother _ hne⟩
    · exact Or.inl ⟨j, op, found, failure, hcall⟩
  · refine Or.inr ⟨e, ?_, hfault⟩
    rcases hstep.cases with ⟨i, op', hi, rfl⟩ | ⟨i, call, rest, machine, hi, hadvance, rfl⟩ |
      ⟨i, op', found', result, hi, rfl⟩ | ⟨other, rfl⟩
    · exact he
    · exact he
    · exact List.mem_append_left _ he
    · exact he

/-- A cell is written once, whoever calls it and however the calls are
interleaved.  Once it is ready it stays as it is, so that a context which has
seen it ready may read the value at any later time; after a panic it stays
claimed, and every call is turned away or waits. -/
theorem Group.Runs.cell_written_once (h : Group.Runs locks log other c history) :
    WrittenOnce c history ∧
    ∀ d, Relation.ReflTransGen Group.Step c d →
      (∀ value, c.cell = .ready value → d.cell = .ready value) ∧
      (c.Panicked → d.cell = .writing none ∧ ∀ e ∈ d.ended, e.Rejected) := by
  obtain ⟨rfl, p, hsound⟩ := h.sound
  refine ⟨hsound.writtenOnce, ?_⟩
  intro d hsteps
  have hlater : (∃ p, Sound p d) ∧ (∀ value, c.cell = .ready value → d.cell = .ready value) ∧
      (c.Panicked → d.Panicked) := by
    induction hsteps with
    | refl => exact ⟨⟨p, hsound⟩, fun _ => id, id⟩
    | tail _ hstep ih =>
        obtain ⟨⟨p, hsound⟩, hready, hpanicked⟩ := ih
        obtain ⟨p', hsound', hcell⟩ := hsound.step hstep
        refine ⟨⟨p', hsound'⟩, ?_, fun h => hstep.panicked (hpanicked h)⟩
        intro value hvalue
        rcases hcell with heq | hgrows
        · rw [heq, hready value hvalue]
        · rw [hready value hvalue] at hgrows
          cases hgrows
  obtain ⟨⟨p, hsound⟩, hready, hpanicked⟩ := hlater
  exact ⟨hready, fun h => hsound.rejected_of_panicked (hpanicked h)⟩

/-- An initialiser looks at its cell and tries to set it, in vain; so does
another context, which gets the value when it has been published. -/
theorem exists_nested_calls :
    let init : Initialiser ℕ Unit := .get fun seen => .set 8 fun _ => .give (seen.getD 7)
    ∃ (c : Group (Fin 2) Unit ℕ Unit) (history : List (OnceCell ℕ)),
      Group.Runs (.free .spin) #[] () c history ∧ WrittenOnce c history ∧
      c.site.nested = [.get none, .set 8 (.error 8)] ∧
      c.ended = [⟨.set 9, .writing none, .ok (.error 9)⟩, ⟨.get, .writing (some 7), .ok none⟩,
        ⟨.get, .ready 7, .ok (some 7)⟩, ⟨.getOrInit init, .empty, .ok (7 : ℕ)⟩] := by
  intro init
  let moves : List (Move (Fin 2) ℕ Unit) :=
    [.start 0 (.getOrInit init), .advance 0, .advance 0,
      .start 1 (.set 9), .advance 1, .leave 1,
      .advance 0, .advance 0, .advance 0, .advance 0, .advance 0,
      .start 1 .get, .advance 1, .leave 1,
      .advance 0,
      .start 1 .get, .advance 1, .leave 1,
      .advance 0, .leave 0]
  have hmoves : ∃ c, (Group.fresh (.free .spin) #[] () : Group (Fin 2) Unit ℕ Unit).perform? moves =
      some c ∧ c.site.nested = [.get none, .set 8 (.error 8)] ∧
      c.ended = [⟨.set 9, .writing none, .ok (.error 9)⟩, ⟨.get, .writing (some 7), .ok none⟩,
        ⟨.get, .ready 7, .ok (some 7)⟩, ⟨.getOrInit init, .empty, .ok (7 : ℕ)⟩] :=
    ⟨_, rfl, rfl, rfl⟩
  obtain ⟨c, hperform, hnested, hended⟩ := hmoves
  obtain ⟨history, hruns⟩ := Group.Runs.start.perform? hperform
  exact ⟨c, history, hruns, hruns.cell_written_once.1, hnested, hended⟩

end KernelMemory.OnceCell
