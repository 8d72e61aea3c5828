import KernelMemory.Interleaving
import KernelMemory.Sync.Counter
import KernelMemory.Sync.LockName
import Mathlib.Algebra.BigOperators.Group.List.Basic
import Mathlib.Algebra.GroupWithZero.Nat
import Mathlib.Data.Int.Notation
import Mathlib.Data.List.Nodup
import Mathlib.Data.List.Perm.Basic

/-!
# Counting by many contexts

Any number of contexts update one counter, each by a finite program of calls in
which an answer may decide on the next call, and every call is one piece of the
program.  `Runs` follows a schedule and lists the calls in the order in which
they took effect; every schedule is such a run (`exists_runs`).

The order of the calls explains everything that was answered: after each of
them the counter holds what the calls up to it add and subtract (`Tally`), and
that is the answer.  The main statement is `exists_tally_of_reaches`.
-/

namespace KernelMemory.Counter

/-! ## Calls -/

/-- An update of a counter. -/
inductive Update where
  | add (amount : UInt64)
  | sub (amount : UInt64)
  | increment
  | decrement
  deriving DecidableEq

namespace Update

/-- What an update answers, and the counter that it leaves. -/
def perform : Update → Counter → UInt64 × Counter
  | .add amount, c => c.add amount
  | .sub amount, c => c.sub amount
  | .increment, c => c.increment
  | .decrement, c => c.decrement

/-- How much an update adds. -/
def added : Update → ℕ
  | .add amount => amount.toNat
  | .increment => 1
  | .sub _ | .decrement => 0

/-- How much an update subtracts. -/
def subtracted : Update → ℕ
  | .sub amount => amount.toNat
  | .decrement => 1
  | .add _ | .increment => 0

/-- An update as one piece of a program. -/
def program {κ : Type} (update : Update) : Program κ Counter UInt64 :=
  .step (fun c => some (update.perform c)) (.done ∘ .ok)

/-- An update answers what it leaves in the counter. -/
theorem perform_fst (update : Update) (c : Counter) :
    (update.perform c).1 = (update.perform c).2.value := by
  cases update <;> rfl

theorem toNat_perform (update : Update) (c : Counter) :
    ((update.perform c).2.value.toNat : ℤ) =
      ((c.value.toNat : ℤ) + update.added - update.subtracted) % 2 ^ 64 := by
  have hadd (amount : UInt64) : ((c.value + amount).toNat : ℤ) =
      ((c.value.toNat : ℤ) + amount.toNat - (0 : ℕ)) % 2 ^ 64 := by
    rw [UInt64.toNat_add]
    omega
  have hsub (amount : UInt64) : ((c.value - amount).toNat : ℤ) =
      ((c.value.toNat : ℤ) + (0 : ℕ) - amount.toNat) % 2 ^ 64 := by
    have hlt := amount.toNat_lt
    rw [UInt64.toNat_sub]
    omega
  cases update with
  | add amount => exact hadd amount
  | sub amount => exact hsub amount
  | increment => exact hadd 1
  | decrement => exact hsub 1

end Update

/-- The value of a counter after some updates, modulo `2 ^ 64`. -/
def counted (initial : UInt64) (updates : List Update) : ℤ :=
  ((initial.toNat : ℤ) + ((updates.map Update.added).sum : ℕ) -
    ((updates.map Update.subtracted).sum : ℕ)) % 2 ^ 64

theorem counted_nil (initial : UInt64) : counted initial [] = initial.toNat := by
  have hlt := initial.toNat_lt
  simp only [counted, List.map_nil, List.sum_nil]
  omega

theorem counted_append (initial : UInt64) (updates : List Update) (update : Update) :
    counted initial (updates ++ [update]) =
      (counted initial updates + update.added - update.subtracted) % 2 ^ 64 := by
  simp only [counted, List.map_append, List.sum_append, List.map_cons, List.map_nil,
    List.sum_cons, List.sum_nil]
  omega

/-- The calls that a context makes.  What it is answered may decide what it
does next. -/
inductive Caller where
  | stop
  | call (update : Update) (next : UInt64 → Caller)

namespace Caller

/-- The calls as a program that gives what was called and answered, after what
had been called before. -/
def collect {κ : Type} :
    Caller → List (Update × UInt64) → Program κ Counter (List (Update × UInt64))
  | .stop, made => return made
  | .call update next, made => do
      let answer ← update.program
      (next answer).collect (made ++ [(update, answer)])

/-- The calls as a program that gives what was called and answered. -/
def program {κ : Type} (caller : Caller) : Program κ Counter (List (Update × UInt64)) :=
  caller.collect []

/-- A context has made some calls, each as its program says after the answers
before, and has others left. -/
inductive Makes : Caller → List (Update × UInt64) → Caller → Prop
  | nothing {caller : Caller} : Makes caller [] caller
  | call {update : Update} {next : UInt64 → Caller} {answer : UInt64}
      {made : List (Update × UInt64)} {rest : Caller} (later : Makes (next answer) made rest) :
      Makes (.call update next) ((update, answer) :: made) rest

theorem Makes.append
    {caller : Caller} {made : List (Update × UInt64)} {update : Update}
    {next : UInt64 → Caller} (h : Makes caller made (.call update next)) (answer : UInt64) :
    Makes caller (made ++ [(update, answer)]) (next answer) := by
  generalize hrest : Caller.call update next = rest at h
  induction h with
  | nothing =>
      subst hrest
      exact .call .nothing
  | call later ih => exact .call (ih hrest)

/-- Whatever it is answered, a context makes no other updates than these. -/
def Only (p : Update → Prop) : Caller → Prop
  | .stop => True
  | .call update next => p update ∧ ∀ answer, (next answer).Only p

/-- One update, `n` times. -/
def times (update : Update) : ℕ → Caller
  | 0 => .stop
  | n + 1 => .call update fun _ => times update n

theorem only_times (update : Update) (n : ℕ) : (times update n).Only (· = update) := by
  induction n with
  | zero => exact trivial
  | succ n ih => exact ⟨rfl, fun _ => ih⟩

end Caller

/-! ## Runs -/

/-- A context in the course of its calls. -/
structure Client where
  rest : Caller
  made : List (Update × UInt64)

namespace Client

def fresh (caller : Caller) : Client := ⟨caller, []⟩

/-- What is left of the program of a context. -/
def program {κ : Type} (client : Client) : Program κ Counter (List (Update × UInt64)) :=
  client.rest.collect client.made

end Client

structure Call where
  context : ℕ
  update : Update
  answer : UInt64
  /-- The value of the counter right after the call. -/
  left : UInt64

variable {κ : Type}

/-- Some schedule leads from the start to a machine and to clients, and these
are the calls on the way. -/
inductive Runs (start : Machine κ Counter) (callers : List Caller) :
    Machine κ Counter → List Client → List Call → Prop
  | refl : Runs start callers start (callers.map Client.fresh) []
  | tail {m : Machine κ Counter} {clients : List Client} {calls : List Call} {i : ℕ}
      {update : Update} {next : UInt64 → Caller} {made : List (Update × UInt64)}
      {answer : UInt64} {c : Counter} (before : Runs start callers m clients calls)
      (here : clients[i]? = some ⟨.call update next, made⟩)
      (last : update.perform m.state = (answer, c)) :
      Runs start callers { m with state := c }
        (clients.set i ⟨next answer, made ++ [(update, answer)]⟩)
        (calls ++ [⟨i, update, answer, c.value⟩])

/-- A client whose program has ended has given what it was answered. -/
theorem delivered_of_ended
    {m : Machine κ Counter} {clients : List Client}
    (h : ∀ client ∈ clients, client.rest = .stop) :
    (Config.mk m (clients.map Client.program)).delivered = clients.map Client.made := by
  rw [Config.delivered, List.filterMap_map, ← List.filterMap_eq_map]
  apply List.filterMap_congr
  rintro ⟨rest, made⟩ hclient
  obtain rfl : rest = .stop := h _ hclient
  rfl

section Stepping

variable [DecidableEq κ]

theorem advance_call
    (m : Machine κ Counter) (update : Update) (next : UInt64 → Caller)
    (made : List (Update × UInt64)) :
    (Client.mk (.call update next) made).program.advance m =
      some ((Client.mk (next (update.perform m.state).1)
          (made ++ [(update, (update.perform m.state).1)])).program,
        { m with state := (update.perform m.state).2 }) :=
  rfl

theorem exists_call
    {m : Machine κ Counter} {clients : List Client} {i : ℕ}
    {d : Config (Machine κ Counter) (Program κ Counter (List (Update × UInt64)))}
    (h : Config.stepAt Program.stepper ⟨m, clients.map Client.program⟩ i = some d) :
    ∃ update next made answer c, clients[i]? = some ⟨.call update next, made⟩ ∧
      update.perform m.state = (answer, c) ∧
      d = ⟨{ m with state := c },
        (clients.set i ⟨next answer, made ++ [(update, answer)]⟩).map Client.program⟩ := by
  cases hclient : clients[i]? with
  | none => simp [Config.stepAt, hclient] at h
  | some client =>
      obtain ⟨rest, made⟩ := client
      cases rest with
      | stop =>
          simp [Config.stepAt, hclient, Program.stepper, Client.program, Caller.collect,
            Program.advance, pure] at h
      | call update next =>
          simp only [Config.stepAt, List.getElem?_map, hclient, Option.map_some,
            Program.stepper, advance_call, Option.some.injEq] at h
          refine ⟨update, next, made, (update.perform m.state).1, (update.perform m.state).2, rfl,
            rfl, ?_⟩
          rw [← h, List.map_set]

/-- Every schedule is one of these runs. -/
theorem exists_runs
    {start : Machine κ Counter} {callers : List Caller}
    {d : Config (Machine κ Counter) (Program κ Counter (List (Update × UInt64)))}
    (h : Config.Reaches Program.stepper ⟨start, callers.map Caller.program⟩ d) :
    ∃ clients calls, Runs start callers d.shared clients calls ∧
      d.contexts = clients.map Client.program := by
  induction h with
  | refl =>
      refine ⟨_, _, .refl, ?_⟩
      rw [List.map_map]
      rfl
  | @tail c d i before last ih =>
      obtain ⟨clients, calls, hruns, hcontexts⟩ := ih
      obtain ⟨m, contexts⟩ := c
      obtain rfl : contexts = clients.map Client.program := hcontexts
      obtain ⟨update, next, made, answer, counter, hclient, hperform, rfl⟩ := exists_call last
      exact ⟨_, _, .tail hruns hclient hperform, rfl⟩

theorem stepAt_call
    {m : Machine κ Counter} {clients : List Client} {i : ℕ} {update : Update}
    {next : UInt64 → Caller} {made : List (Update × UInt64)}
    (here : clients[i]? = some ⟨.call update next, made⟩) :
    Config.stepAt Program.stepper ⟨m, clients.map Client.program⟩ i =
      some ⟨{ m with state := (update.perform m.state).2 },
        (clients.set i ⟨next (update.perform m.state).1,
          made ++ [(update, (update.perform m.state).1)]⟩).map Client.program⟩ := by
  simp only [Config.stepAt, List.getElem?_map, here, Option.map_some, Program.stepper,
    advance_call, List.map_set]

/-- A client can make all the calls that it has left. -/
theorem exists_reaches_stop
    {rest : Caller} {m : Machine κ Counter} {clients : List Client} {i : ℕ}
    {made : List (Update × UInt64)} (here : clients[i]? = some ⟨rest, made⟩) :
    ∃ m' made', Config.Reaches Program.stepper ⟨m, clients.map Client.program⟩
      ⟨m', (clients.set i ⟨.stop, made'⟩).map Client.program⟩ := by
  have hlt := (List.getElem?_eq_some_iff.1 here).1
  induction rest generalizing m clients made with
  | stop =>
      refine ⟨m, made, ?_⟩
      rw [← (List.getElem?_eq_some_iff.1 here).2, List.set_getElem_self]
      exact .refl
  | call update next ih =>
      have hstep := stepAt_call (m := m) here
      obtain ⟨m', made', hrest⟩ := ih (update.perform m.state).1
        (m := { m with state := (update.perform m.state).2 }) (List.getElem?_set_self hlt)
        (by rwa [List.length_set])
      rw [List.set_set] at hrest
      exact ⟨m', made', (Config.Reaches.refl.tail i hstep).trans hrest⟩

/-- The first `n` clients can make all the calls that they have left. -/
theorem exists_reaches_stopped (m : Machine κ Counter) (clients : List Client) (n : ℕ) :
    ∃ m', ∃ clients' : List Client, clients'.length = clients.length ∧
      (∀ i client, i < n → clients'[i]? = some client → client.rest = .stop) ∧
      Config.Reaches Program.stepper ⟨m, clients.map Client.program⟩
        ⟨m', clients'.map Client.program⟩ := by
  induction n with
  | zero => exact ⟨m, clients, rfl, fun i client hi => absurd hi (Nat.not_lt_zero i), .refl⟩
  | succ n ih =>
      obtain ⟨m₁, clients₁, hlength, hstopped, hreaches⟩ := ih
      cases hn : clients₁[n]? with
      | none =>
          refine ⟨m₁, clients₁, hlength, ?_, hreaches⟩
          intro i client hi hclient
          rcases Nat.lt_succ_iff_lt_or_eq.1 hi with hlt | rfl
          · exact hstopped i client hlt hclient
          · rw [hn] at hclient
            cases hclient
      | some last =>
          obtain ⟨m₂, made, hrest⟩ := exists_reaches_stop (m := m₁) hn
          refine ⟨m₂, _, by rw [List.length_set, hlength], ?_, hreaches.trans hrest⟩
          intro i client hi hclient
          by_cases hin : n = i
          · subst hin
            rw [List.getElem?_set_self (List.getElem?_eq_some_iff.1 hn).1] at hclient
            cases hclient
            rfl
          · rw [List.getElem?_set_ne hin] at hclient
            exact hstopped i client (by omega) hclient

/-- All clients can make all the calls that they have left. -/
theorem exists_reaches_ended (m : Machine κ Counter) (clients : List Client) :
    ∃ m', ∃ clients' : List Client, (∀ client ∈ clients', client.rest = .stop) ∧
      Config.Reaches Program.stepper ⟨m, clients.map Client.program⟩
        ⟨m', clients'.map Client.program⟩ := by
  obtain ⟨m', clients', hlength, hstopped, hreaches⟩ :=
    exists_reaches_stopped m clients clients.length
  refine ⟨m', clients', ?_, hreaches⟩
  intro client hclient
  obtain ⟨i, hi, rfl⟩ := List.mem_iff_getElem.1 hclient
  exact hstopped i _ (hlength ▸ hi) (List.getElem?_eq_getElem hi)

end Stepping

/-! ## What a run has counted -/

/-- What the calls of a run explain: the value of the counter, every answer,
and what each context has made of its program. -/
structure Tally (initial : UInt64) (callers : List Caller) (value : UInt64)
    (clients : List Client) (calls : List Call) : Prop where
  value : (value.toNat : ℤ) = counted initial (calls.map Call.update)
  /-- A call answers what it leaves in the counter: what the calls up to it
  come to. -/
  answers : ∀ before call later, calls = before ++ call :: later →
    call.answer = call.left ∧
      (call.left.toNat : ℤ) = counted initial (before.map Call.update ++ [call.update])
  /-- Each context has made its own calls, and has the rest of its program
  left. -/
  programs : ∀ i client, clients[i]? = some client →
    client.made = (calls.filter (·.context = i)).map (fun call => (call.update, call.answer)) ∧
    ∃ caller, callers[i]? = some caller ∧ caller.Makes client.made client.rest
  /-- Nobody else has made a call. -/
  together : (clients.flatMap Client.made).Perm
    (calls.map fun call => (call.update, call.answer))

theorem perm_flatMap_set
    {clients : List Client} {i : ℕ} {client client' : Client} {x : Update × UInt64}
    (h : clients[i]? = some client) (hmade : client'.made = client.made ++ [x]) :
    ((clients.set i client').flatMap Client.made).Perm (clients.flatMap Client.made ++ [x]) := by
  obtain ⟨hlt, hclient⟩ := List.getElem?_eq_some_iff.1 h
  have hclients : clients = clients.take i ++ client :: clients.drop (i + 1) := by
    rw [← hclient, List.getElem_cons_drop, List.take_append_drop]
  rw [List.set_eq_take_append_cons_drop, if_pos hlt]
  conv_rhs => rw [hclients]
  simp only [List.flatMap_append, List.flatMap_cons, hmade, List.append_assoc]
  exact ((List.perm_append_comm.append_left _).append_left _)

variable {start m : Machine κ Counter} {callers : List Caller} {clients : List Client}
  {calls : List Call}

theorem tally_refl : Tally start.state.value callers start.state.value
    (callers.map Client.fresh) [] where
  value := (counted_nil _).symm
  answers before call later h := by simp at h
  programs i client hclient := by
    rw [List.getElem?_map] at hclient
    obtain ⟨caller, hcaller, rfl⟩ := Option.map_eq_some_iff.1 hclient
    exact ⟨rfl, caller, hcaller, .nothing⟩
  together := by
    rw [List.flatMap_eq_nil_iff.2]
    · exact .refl _
    · intro client hclient
      obtain ⟨caller, -, rfl⟩ := List.mem_map.1 hclient
      rfl

theorem Tally.call
    {initial : UInt64} {i : ℕ} {update : Update} {next : UInt64 → Caller}
    {made : List (Update × UInt64)} {answer : UInt64} {c c' : Counter}
    (h : Tally initial callers c.value clients calls)
    (here : clients[i]? = some ⟨.call update next, made⟩)
    (last : update.perform c = (answer, c')) :
    Tally initial callers c'.value
      (clients.set i ⟨next answer, made ++ [(update, answer)]⟩)
      (calls ++ [⟨i, update, answer, c'.value⟩]) := by
  have hanswer : answer = c'.value := by
    have hfst := update.perform_fst c
    rwa [last] at hfst
  have hvalue : (c'.value.toNat : ℤ) =
      counted initial (calls.map Call.update ++ [update]) := by
    have hperform := update.toNat_perform c
    rw [last] at hperform
    rw [counted_append, ← h.value, hperform]
  constructor
  · rw [List.map_append]
    exact hvalue
  · intro before call later hcalls
    rcases List.eq_nil_or_concat later with rfl | ⟨later', final, rfl⟩
    · obtain ⟨rfl, hcall⟩ := List.append_inj' hcalls rfl
      cases hcall
      exact ⟨hanswer, hvalue⟩
    · have hsplit : calls = before ++ call :: later' := by
        rw [List.concat_eq_append, ← List.cons_append, ← List.append_assoc] at hcalls
        exact (List.append_inj' hcalls rfl).1
      exact h.answers before call later' hsplit
  · intro j client hclient
    by_cases hij : i = j
    · subst hij
      have hlt := (List.getElem?_eq_some_iff.1 here).1
      rw [List.getElem?_set_self hlt, Option.some.injEq] at hclient
      subst hclient
      obtain ⟨hmade, caller, hcaller, hmakes⟩ := h.programs i _ here
      refine ⟨?_, caller, hcaller, hmakes.append answer⟩
      simp only at hmade
      rw [List.filter_append, List.map_append, ← hmade]
      simp
    · rw [List.getElem?_set_ne hij] at hclient
      obtain ⟨hmade, hprogram⟩ := h.programs j client hclient
      refine ⟨?_, hprogram⟩
      rw [List.filter_append, List.map_append, ← hmade]
      simp [hij]
  · rw [List.map_append]
    exact (perm_flatMap_set here rfl).trans (h.together.append_right _)

/-- Every run is explained by its calls. -/
theorem Runs.tally (h : Runs start callers m clients calls) :
    Tally start.state.value callers m.state.value clients calls := by
  induction h with
  | refl => exact tally_refl
  | tail before here last ih => exact ih.call here last

/-! ## Runs of increments -/

/-- What a run of so many increments answers, in the order of the calls. -/
def following (initial : UInt64) (n : ℕ) : List UInt64 :=
  (List.range n).map fun k => initial + UInt64.ofNat (k + 1)

theorem nodup_following (initial : UInt64) {n : ℕ} (hn : n < 2 ^ 64) :
    (following initial n).Nodup := by
  apply List.Nodup.map_on _ List.nodup_range
  intro j hj k hk heq
  rw [List.mem_range] at hj hk
  have hnat := congrArg UInt64.toNat (UInt64.add_right_inj initial |>.1 heq)
  rw [UInt64.toNat_ofNat_of_lt' (by simp only [UInt64.size]; omega),
    UInt64.toNat_ofNat_of_lt' (by simp only [UInt64.size]; omega)] at hnat
  omega

theorem Runs.only
    {p : Update → Prop} (h : Runs start callers m clients calls)
    (hcallers : ∀ caller ∈ callers, caller.Only p) :
    (∀ client ∈ clients, client.rest.Only p) ∧ ∀ call ∈ calls, p call.update := by
  induction h with
  | refl =>
      constructor
      · intro client hclient
        obtain ⟨caller, hcaller, rfl⟩ := List.mem_map.1 hclient
        exact hcallers caller hcaller
      · intro call hcall
        cases hcall
  | tail before here last ih =>
      obtain ⟨hclients, hcalls⟩ := ih
      have honly := hclients _ (List.mem_of_getElem? here)
      constructor
      · intro client hclient
        rcases List.mem_or_eq_of_mem_set hclient with hold | rfl
        · exact hclients client hold
        · exact honly.2 _
      · intro call hcall
        rcases List.mem_append.1 hcall with hold | hnew
        · exact hcalls call hold
        · rw [List.mem_singleton.1 hnew]
          exact honly.1

/-- Increments answer the values that follow the first one. -/
theorem Runs.answers_of_increments
    (h : Runs start callers m clients calls)
    (hcalls : ∀ call ∈ calls, call.update = .increment) :
    m.state.value = start.state.value + UInt64.ofNat calls.length ∧
      calls.map Call.answer = following start.state.value calls.length := by
  induction h with
  | refl => exact ⟨(UInt64.add_zero _).symm, rfl⟩
  | @tail m clients calls i update next made answer c before here last ih =>
      obtain ⟨hvalue, hanswers⟩ := ih fun call hcall => hcalls call (List.mem_append_left _ hcall)
      have hupdate : update = .increment :=
        hcalls _ (List.mem_append_right _ List.mem_cons_self)
      subst hupdate
      cases last
      have hnext : m.state.value + 1 =
          start.state.value + UInt64.ofNat (calls.length + 1) := by
        rw [hvalue, UInt64.ofNat_add, UInt64.add_assoc]
        rfl
      constructor
      · rw [List.length_append]
        exact hnext
      · rw [List.map_append, hanswers, List.length_append, following, following,
          List.length_singleton, List.range_succ, List.map_append]
        exact congrArg (_ ++ [·]) hnext

/-- What any number of contexts make of a counter, at any moment of any
schedule.  The calls that were made explain its value and every answer; no
context waits, and all can end; once they have, they have given what they were
answered.  If all calls are increments, less than `2 ^ 64` of them, the answers
are different, and are the values that follow the first one. -/
theorem exists_tally_of_reaches
    [DecidableEq κ] {start : Machine κ Counter} {callers : List Caller}
    {d : Config (Machine κ Counter) (Program κ Counter (List (Update × UInt64)))}
    (h : Config.Reaches Program.stepper ⟨start, callers.map Caller.program⟩ d) :
    ∃ clients calls, Runs start callers d.shared clients calls ∧
      d.contexts = clients.map Client.program ∧
      Tally start.state.value callers d.shared.state.value clients calls ∧
      (∀ i client, clients[i]? = some client →
        client.rest = .stop ∨ ∃ d', d.stepAt Program.stepper i = some d') ∧
      (∃ e, Config.Reaches Program.stepper d e ∧
        ∀ program ∈ e.contexts, ∃ made, program = .done (.ok made)) ∧
      ((∀ program ∈ d.contexts, ∃ made, program = .done (.ok made)) →
        d.delivered = clients.map Client.made) ∧
      ((∀ caller ∈ callers, caller.Only (· = .increment)) → calls.length < 2 ^ 64 →
        calls.map Call.answer = following start.state.value calls.length ∧
        (calls.map Call.answer).Nodup ∧
        ((clients.flatMap Client.made).map Prod.snd).Perm
          (following start.state.value calls.length)) := by
  obtain ⟨clients, calls, hruns, hcontexts⟩ := exists_runs h
  obtain ⟨m, contexts⟩ := d
  obtain rfl : contexts = clients.map Client.program := hcontexts
  refine ⟨clients, calls, hruns, rfl, hruns.tally, ?_, ?_, ?_, ?_⟩
  · rintro i ⟨rest, made⟩ hclient
    cases rest with
    | stop => exact Or.inl rfl
    | call update next => exact Or.inr ⟨_, stepAt_call hclient⟩
  · obtain ⟨m', clients', hended, hreaches⟩ := exists_reaches_ended m clients
    refine ⟨_, hreaches, ?_⟩
    intro program hprogram
    obtain ⟨⟨rest, made⟩, hclient, rfl⟩ := List.mem_map.1 hprogram
    obtain rfl : rest = .stop := hended _ hclient
    exact ⟨made, rfl⟩
  · intro hended
    apply delivered_of_ended
    rintro ⟨rest, made⟩ hclient
    obtain ⟨made', hdone⟩ := hended _ (List.mem_map_of_mem hclient)
    cases rest with
    | stop => rfl
    | call update next => cases hdone
  · intro honly hfew
    obtain ⟨-, hanswers⟩ := hruns.answers_of_increments (hruns.only honly).2
    have htogether := hruns.tally.together.map Prod.snd
    rw [List.map_map] at htogether
    refine ⟨hanswers, ?_, ?_⟩
    · rw [hanswers]
      exact nodup_following _ hfew
    · rw [← hanswers]
      exact htogether

/-- Two contexts increment a counter that is about to wrap, one of them twice,
and take turns.  Together they are answered zero, one and two. -/
theorem exists_increments_across_zero :
    ∃ d : Config (Machine LockName Counter) (Program LockName Counter (List (Update × UInt64))),
      Config.Reaches Program.stepper
        ⟨.fresh .spin ⟨0xFFFFFFFFFFFFFFFF⟩,
          [Caller.times .increment 2, Caller.times .increment 1].map Caller.program⟩ d ∧
      d.delivered = [[(.increment, 0), (.increment, 2)], [(.increment, 1)]] ∧
      (d.delivered.flatten.map Prod.snd).Perm (following 0xFFFFFFFFFFFFFFFF 3) := by
  have hreaches := Config.reaches_settle Program.stepper 2 (Config.mk
    (Machine.fresh LockKind.spin (Counter.mk 0xFFFFFFFFFFFFFFFF) : Machine LockName Counter)
    ([Caller.times .increment 2, Caller.times .increment 1].map Caller.program))
  obtain ⟨clients, calls, -, -, htally, -, -, hdelivered, hincrements⟩ :=
    exists_tally_of_reaches hreaches
  have honly : ∀ caller ∈ [Caller.times .increment 2, Caller.times .increment 1],
      caller.Only (· = .increment) := by
    intro caller hcaller
    rcases List.mem_pair.1 hcaller with rfl | rfl <;> exact Caller.only_times _ _
  have hended := hdelivered (by
    intro program hprogram
    rcases List.mem_pair.1 hprogram with rfl | rfl <;> exact ⟨_, rfl⟩)
  have hlength : calls.length = 3 := by
    have htogether := htally.together.length_eq
    rw [List.length_map, List.flatMap, ← hended] at htogether
    exact htogether.symm
  obtain ⟨-, -, hperm⟩ := hincrements honly (by rw [hlength]; decide)
  rw [hlength, List.flatMap, ← hended] at hperm
  exact ⟨_, hreaches, rfl, hperm⟩

end KernelMemory.Counter
