import Mathlib.Algebra.Group.Basic
import Mathlib.Algebra.Ring.Nat
import Mathlib.Algebra.Order.Group.Nat
import Mathlib.Data.List.Forall2
import Mathlib.Data.Nat.Cast.Defs
import KernelMemory.Sync.Contention

/-!
# Mutual exclusion

Any number of contexts use one value behind a lock, and their memory accesses
are interleaved in any order.  A run also lists the critical sections in the
order in which contexts entered them, each as the code that its context had
before it right after the compare-exchange.

The main statement is `Runs.mutual_exclusion`.  The lock is held exactly while one
context is in a section, and the value is what the sections make of it, each
run whole, in the order of their entries.  Nothing is lost of updates that read
and write the value separately.
-/

namespace KernelMemory.Contention

variable {α : Type}

/-! ## Critical sections -/

/-- What the code makes of the value up to the next drop of a guard, if nobody
else touches the value.  A section that never ends leaves what it has. -/
def Code.finish {guards : ℕ} : Code α guards → α → α
  | .stop, value => value
  | .lock _, value => value
  | .tryLock _ refused, value => refused.finish value
  | .read next, value => (next value).finish value
  | .write value next, _ => next.finish value
  | .unlock _, value => value

@[simp] theorem Code.finish_updating {guards : ℕ} (f : α → α) (next : Code α guards) :
    (Code.updating f next).finish = f :=
  rfl

/-- A critical section: what its context has to do right after taking the
lock. -/
abbrev Entry (α : Type) := Σ guards : ℕ, Code α (guards + 1)

/-- What some sections make of the value, one after the other. -/
def applied (sections : List (Entry α)) (value : α) : α :=
  sections.foldl (fun value entry => entry.2.finish value) value

namespace Context

def guards : Context α → ℕ
  | @running _ guards _ => guards
  | @watching _ guards _ => guards
  | stopped _ => 0

/-- A context is between taking the lock and freeing it. -/
def Inside (x : Context α) : Prop := 0 < x.guards

def Ended (x : Context α) : Prop := x = running (.stop : Code α 0)

/-- What a context makes of the value up to the next drop of a guard. -/
def finish : Context α → α → α
  | running code, value => code.finish value
  | watching _, value => value
  | stopped _, value => value

/-- The section that a context enters if its next access takes the lock. -/
def wants? : Context α → Option (Entry α)
  | running (.lock next) => some ⟨_, next⟩
  | running (.tryLock taken _) => some ⟨_, taken⟩
  | _ => none

end Context

/-- The section that a context enters with its next access, if any. -/
def entered (x : Context α) (s : Shared α) : List (Entry α) :=
  if s.lock.held then [] else x.wants?.toList

/-- Some schedule leads from one configuration to another, and contexts enter
some sections on the way. -/
inductive Runs (first : Config (Shared α) (Context α)) :
    Config (Shared α) (Context α) → List (Entry α) → Prop
  | refl : Runs first first []
  | tail {c d : Config (Shared α) (Context α)} {sections : List (Entry α)} {i : ℕ}
      {x : Context α} (before : Runs first c sections) (here : c.contexts[i]? = some x)
      (last : c.stepAt step i = some d) : Runs first d (sections ++ entered x c.shared)

/-- Every schedule is one of these runs. -/
theorem exists_runs {first c : Config (Shared α) (Context α)}
    (h : Config.Reaches step first c) : ∃ sections, Runs first c sections := by
  induction h with
  | refl => exact ⟨[], .refl⟩
  | @tail c d i before last ih =>
      obtain ⟨sections, hruns⟩ := ih
      cases hx : c.contexts[i]? with
      | none => simp [Config.stepAt, hx] at last
      | some x => exact ⟨_, .tail hruns hx last⟩

/-! ## Memory accesses -/

/-- The ways in which an access changes its context and the shared state. -/
inductive Access (s : Shared α) : Context α → List (Entry α) → Context α → Shared α → Prop
  | enter {x : Context α} {next : Code α (x.guards + 1)} (free : s.lock.held = false) :
      Access s x [⟨x.guards, next⟩] (.running next)
        { s with lock := { s.lock with held := true } }
  | goOn {x x' : Context α} (guards : x'.guards = x.guards)
      (runs : ∀ failure, x' ≠ .stopped failure) (finish : x'.finish s.value = x.finish s.value) :
      Access s x [] x' s
  | write {guards : ℕ} {value : α} {next : Code α (guards + 1)} :
      Access s (.running (.write value next)) [] (.running next) { s with value }
  | leave {guards : ℕ} {next : Code α guards} (held : s.lock.held = true) :
      Access s (.running (.unlock next)) [] (.running next)
        { s with lock := { s.lock with held := false } }
  /-- The lock turns out to be free when a guard is dropped. -/
  | fail {guards : ℕ} {next : Code α guards} {x' : Context α} {s' : Shared α}
      (free : s.lock.held = false) : Access s (.running (.unlock next)) [] x' s'

theorem entered_of_wants {x : Context α} (h : x.wants? = none) (s : Shared α) :
    entered x s = [] := by
  rw [entered, h, Option.toList_none, ite_self]

theorem step_access {x x' : Context α} {s s' : Shared α} (h : step x s = some (x', s')) :
    Access s x (entered x s) x' s' := by
  obtain ⟨⟨kind, held⟩, value⟩ := s
  cases x with
  | stopped failure => cases h
  | watching next =>
      rw [entered_of_wants rfl]
      cases held with
      | true =>
          cases h
          exact .goOn rfl nofun rfl
      | false =>
          cases h
          exact .goOn rfl nofun rfl
  | running code =>
      cases code with
      | stop => cases h
      | lock next =>
          cases held with
          | true =>
              cases h
              cases kind with
              | spin => exact .goOn rfl nofun rfl
              | yielding => exact .goOn rfl nofun rfl
          | false =>
              cases h
              exact .enter rfl
      | tryLock taken refused =>
          cases held with
          | true =>
              cases h
              exact .goOn rfl nofun rfl
          | false =>
              cases h
              exact .enter rfl
      | read next =>
          rw [entered_of_wants rfl]
          cases h
          exact .goOn rfl nofun rfl
      | write value next =>
          rw [entered_of_wants rfl]
          cases h
          exact .write
      | unlock next =>
          rw [entered_of_wants rfl]
          cases held with
          | true =>
              cases h
              exact .leave rfl
          | false => exact .fail rfl

theorem exists_step {c d : Config (Shared α) (Context α)} {i : ℕ} {x : Context α}
    (here : c.contexts[i]? = some x) (h : c.stepAt step i = some d) :
    ∃ x' s', d = ⟨s', c.contexts.set i x'⟩ ∧ step x c.shared = some (x', s') := by
  rw [Config.stepAt, here] at h
  cases hstep : step x c.shared with
  | none => simp [hstep] at h
  | some out =>
      obtain ⟨x', s'⟩ := out
      simp only [hstep, Option.some.injEq] at h
      exact ⟨x', s', h.symm, rfl⟩

/-! ## One context at a time -/

/-- Nobody is in a section. -/
def Vacant (c : Config (Shared α) (Context α)) : Prop :=
  ∀ x ∈ c.contexts, ¬ x.Inside

/-- What holds after a run that has entered `sections`, from `value` on. -/
structure Exclusive (value : α) (sections : List (Entry α))
    (c : Config (Shared α) (Context α)) : Prop where
  /-- The lock is held exactly while some context is inside. -/
  held_iff : c.shared.lock.held = true ↔
    ∃ (i : ℕ) (x : Context α), c.contexts[i]? = some x ∧ x.Inside
  alone : ∀ (i j : ℕ) (x y : Context α), c.contexts[i]? = some x → c.contexts[j]? = some y →
    x.Inside → y.Inside → i = j
  single : ∀ (i : ℕ) (x : Context α), c.contexts[i]? = some x → x.guards ≤ 1
  /-- No context was stopped by freeing a free lock. -/
  runs : ∀ (i : ℕ) (failure : Failure), c.contexts[i]? ≠ some (.stopped failure)
  /-- Between sections the value is what all of them made of it. -/
  value_free : c.shared.lock.held = false → c.shared.value = applied sections value
  /-- What is left of a section makes of the value what the whole section makes
  of what the sections before it left. -/
  value_inside : ∀ (i : ℕ) (x : Context α), c.contexts[i]? = some x → x.Inside →
    ∃ earlier last, sections = earlier ++ [last] ∧
      x.finish c.shared.value = last.2.finish (applied earlier value)

theorem getElem?_set_cases
    {l : List (Context α)} {i j : ℕ} {x y : Context α} (h : (l.set i x)[j]? = some y) :
    j = i ∧ y = x ∨ j ≠ i ∧ l[j]? = some y := by
  by_cases hj : i = j
  · subst hj
    rw [List.getElem?_set_self'] at h
    obtain ⟨-, -, rfl⟩ := Option.map_eq_some_iff.1 h
    exact Or.inl ⟨rfl, rfl⟩
  · rw [List.getElem?_set_ne hj] at h
    exact Or.inr ⟨Ne.symm hj, h⟩

namespace Exclusive

variable {value : α} {sections : List (Entry α)} {c d : Config (Shared α) (Context α)}
variable {i j : ℕ} {x x' y : Context α}

theorem of_start (kind : LockKind) (value : α) (codes : List (Code α 0)) :
    Exclusive value [] (start kind value codes) := by
  have houtside (i : ℕ) (x : Context α)
      (h : (start kind value codes).contexts[i]? = some x) :
      ∃ code : Code α 0, x = .running code := by
    obtain ⟨code, -, hx⟩ := List.mem_map.1 (List.mem_of_getElem? h)
    exact ⟨code, hx.symm⟩
  constructor
  · apply iff_of_false Bool.false_ne_true
    rintro ⟨i, x, h, hinside⟩
    obtain ⟨code, rfl⟩ := houtside i x h
    exact Nat.lt_irrefl 0 hinside
  · intro i j x y h _ hinside
    obtain ⟨code, rfl⟩ := houtside i x h
    exact absurd hinside (Nat.lt_irrefl 0)
  · intro i x h
    obtain ⟨code, rfl⟩ := houtside i x h
    exact Nat.zero_le 1
  · intro i failure h
    obtain ⟨code, hx⟩ := houtside i _ h
    cases hx
  · intro _
    rfl
  · intro i x h hinside
    obtain ⟨code, rfl⟩ := houtside i x h
    exact absurd hinside (Nat.lt_irrefl 0)

/-- The lock is free while nobody is inside. -/
theorem held_eq_false (h : Exclusive value sections c) (hvacant : Vacant c) :
    c.shared.lock.held = false := by
  rw [← Bool.not_eq_true, h.held_iff]
  rintro ⟨i, x, here, hinside⟩
  exact hvacant x (List.mem_of_getElem? here) hinside

theorem not_inside (h : Exclusive value sections c) (hfree : c.shared.lock.held = false)
    (here : c.contexts[i]? = some x) : ¬ x.Inside := by
  intro hinside
  rw [h.held_iff.2 ⟨i, x, here, hinside⟩] at hfree
  cases hfree

/-- A context goes on without taking or freeing the lock, and changes the value
only while it is inside. -/
theorem goOn
    (h : Exclusive value sections c) (here : c.contexts[i]? = some x)
    (hguards : x'.guards = x.guards) (hruns : ∀ failure, x' ≠ .stopped failure) {value' : α}
    (hvalue : value' = c.shared.value ∨ x.Inside)
    (hfinish : x'.finish value' = x.finish c.shared.value) :
    Exclusive value sections ⟨{ c.shared with value := value' }, c.contexts.set i x'⟩ := by
  have hinside : x'.Inside ↔ x.Inside := by rw [Context.Inside, hguards, Context.Inside]
  -- whoever stands somewhere now stood there before with as many guards
  have hbefore (j : ℕ) (y : Context α) (hy : (c.contexts.set i x')[j]? = some y) :
      ∃ z, c.contexts[j]? = some z ∧ y.guards = z.guards := by
    rcases getElem?_set_cases hy with ⟨rfl, rfl⟩ | ⟨-, hy⟩
    · exact ⟨x, here, hguards⟩
    · exact ⟨y, hy, rfl⟩
  have hset : (c.contexts.set i x')[i]? = some x' :=
    List.getElem?_set_self (List.getElem?_eq_some_iff.1 here).1
  constructor
  · refine h.held_iff.trans ⟨?_, ?_⟩
    · rintro ⟨j, y, hy, hy'⟩
      by_cases hj : j = i
      · subst hj
        rw [here] at hy
        cases hy
        exact ⟨j, x', hset, hinside.2 hy'⟩
      · exact ⟨j, y, by rwa [List.getElem?_set_ne (Ne.symm hj)], hy'⟩
    · rintro ⟨j, y, hy, hy'⟩
      obtain ⟨z, hz, hguards'⟩ := hbefore j y hy
      exact ⟨j, z, hz, by rwa [Context.Inside, ← hguards']⟩
  · intro j k y z hy hz hy' hz'
    obtain ⟨y₀, hy₀, hguardsy⟩ := hbefore j y hy
    obtain ⟨z₀, hz₀, hguardsz⟩ := hbefore k z hz
    apply h.alone j k y₀ z₀ hy₀ hz₀
    · rwa [Context.Inside, ← hguardsy]
    · rwa [Context.Inside, ← hguardsz]
  · intro j y hy
    obtain ⟨z, hz, hguards'⟩ := hbefore j y hy
    rw [hguards']
    exact h.single j z hz
  · intro j failure hy
    rcases getElem?_set_cases hy with ⟨-, hx'⟩ | ⟨-, hy⟩
    · exact hruns failure hx'.symm
    · exact h.runs j failure hy
  · intro hfree
    rcases hvalue with rfl | hinside
    · exact h.value_free hfree
    · exact absurd hinside (h.not_inside hfree here)
  · intro j y hy hy'
    rcases getElem?_set_cases hy with ⟨rfl, rfl⟩ | ⟨hj, hbefore⟩
    · rw [hfinish]
      exact h.value_inside j x here (hinside.1 hy')
    · rcases hvalue with rfl | hinside
      · exact h.value_inside j y hbefore hy'
      · exact absurd (h.alone j i y x hbefore here hy' hinside) hj

theorem enter
    (h : Exclusive value sections c) (here : c.contexts[i]? = some x)
    (hfree : c.shared.lock.held = false) (next : Code α (x.guards + 1)) :
    Exclusive value (sections ++ [⟨x.guards, next⟩])
      ⟨{ c.shared with lock := { c.shared.lock with held := true } },
        c.contexts.set i (.running next)⟩ := by
  have hset : (c.contexts.set i (.running next))[i]? = some (.running next) :=
    List.getElem?_set_self (List.getElem?_eq_some_iff.1 here).1
  have hother (j : ℕ) (y : Context α) (hy : (c.contexts.set i (.running next))[j]? = some y)
      (hinside : y.Inside) : j = i ∧ y = .running next := by
    rcases getElem?_set_cases hy with hi | ⟨-, hy⟩
    · exact hi
    · exact absurd hinside (h.not_inside hfree hy)
  constructor
  · exact iff_of_true rfl ⟨i, _, hset, Nat.succ_pos _⟩
  · intro j k y z hy hz hy' hz'
    rw [(hother j y hy hy').1, (hother k z hz hz').1]
  · intro j y hy
    rcases getElem?_set_cases hy with ⟨-, rfl⟩ | ⟨-, hy⟩
    · have hnone := Nat.eq_zero_of_not_pos (h.not_inside hfree here)
      exact Nat.le_of_eq (congrArg (· + 1) hnone)
    · exact h.single j y hy
  · intro j failure hy
    rcases getElem?_set_cases hy with ⟨-, hx'⟩ | ⟨-, hy⟩
    · cases hx'
    · exact h.runs j failure hy
  · intro hheld
    cases hheld
  · intro j y hy hy'
    obtain ⟨-, rfl⟩ := hother j y hy hy'
    exact ⟨sections, _, rfl, congrArg next.finish (h.value_free hfree)⟩

theorem leave
    {guards : ℕ} {next : Code α guards} (h : Exclusive value sections c)
    (here : c.contexts[i]? = some (.running (.unlock next))) :
    Exclusive value sections
      ⟨{ c.shared with lock := { c.shared.lock with held := false } },
        c.contexts.set i (.running next)⟩ := by
  have hinside : (Context.running (.unlock next)).Inside := Nat.succ_pos guards
  have hguards : guards = 0 := by
    have := h.single i _ here
    exact Nat.le_zero.1 (Nat.le_of_succ_le_succ this)
  have hvacant (j : ℕ) (y : Context α) (hy : (c.contexts.set i (.running next))[j]? = some y) :
      ¬ y.Inside := by
    intro hy'
    rcases getElem?_set_cases hy with ⟨-, rfl⟩ | ⟨hj, hy⟩
    · exact absurd hguards (Nat.ne_of_gt hy')
    · exact hj (h.alone j i y _ hy here hy' hinside)
  constructor
  · apply iff_of_false Bool.false_ne_true
    rintro ⟨j, y, hy, hy'⟩
    exact hvacant j y hy hy'
  · intro j k y z hy _ hy'
    exact absurd hy' (hvacant j y hy)
  · intro j y hy
    exact (Nat.eq_zero_of_not_pos (hvacant j y hy)).trans_le (Nat.zero_le 1)
  · intro j failure hy
    rcases getElem?_set_cases hy with ⟨-, hx'⟩ | ⟨-, hy⟩
    · cases hx'
    · exact h.runs j failure hy
  · intro _
    obtain ⟨earlier, last, rfl, hlast⟩ := h.value_inside i _ here hinside
    rw [applied, List.foldl_append]
    exact hlast
  · intro j y hy hy'
    exact absurd hy' (hvacant j y hy)

/-- One access keeps contexts apart. -/
theorem step
    (h : Exclusive value sections c) (here : c.contexts[i]? = some x)
    (hstep : c.stepAt step i = some d) :
    Exclusive value (sections ++ entered x c.shared) d := by
  obtain ⟨x', s', rfl, hx⟩ := exists_step here hstep
  have haccess := step_access hx
  generalize entered x c.shared = entries at haccess ⊢
  cases haccess with
  | enter free => exact h.enter here free _
  | goOn guards runs finish =>
      rw [List.append_nil]
      exact h.goOn here guards runs (Or.inl rfl) finish
  | @write guards value' next =>
      have hguards : (Context.running next).guards =
          (Context.running (.write value' next)).guards := rfl
      rw [List.append_nil]
      exact h.goOn here hguards nofun (Or.inr (Nat.succ_pos guards)) rfl
  | leave held =>
      rw [List.append_nil]
      exact h.leave here
  | fail free => exact absurd (Nat.succ_pos _) (h.not_inside free here)

end Exclusive

variable {kind : LockKind} {value : α} {codes : List (Code α 0)} {sections : List (Entry α)}
variable {c : Config (Shared α) (Context α)}

theorem Exclusive.of_runs (h : Runs (start kind value codes) c sections) :
    Exclusive value sections c := by
  induction h with
  | refl => exact .of_start kind value codes
  | tail _ here last ih => exact ih.step here last

/-- A try gets the lock exactly if nobody is inside. -/
theorem Exclusive.tries
    (h : Exclusive value sections c) {i guards : ℕ} {taken : Code α (guards + 1)}
    {refused : Code α guards}
    (here : c.contexts[i]? = some (.running (.tryLock taken refused))) :
    (Vacant c ∧ c.stepAt Contention.step i =
      some ⟨{ c.shared with lock := { c.shared.lock with held := true } },
        c.contexts.set i (.running taken)⟩) ∨
    (¬ Vacant c ∧ c.stepAt Contention.step i =
      some ⟨c.shared, c.contexts.set i (.running refused)⟩) := by
  cases hheld : c.shared.lock.held with
  | true =>
      refine Or.inr ⟨?_, ?_⟩
      · intro hvacant
        rw [h.held_eq_false hvacant] at hheld
        cases hheld
      · simp [Config.stepAt, here, Contention.step, RawLock.tryAcquire, hheld]
  | false =>
      refine Or.inl ⟨?_, ?_⟩
      · intro x hx
        obtain ⟨j, hj⟩ := List.getElem?_of_mem hx
        exact h.not_inside hheld hj
      · simp [Config.stepAt, here, Contention.step, RawLock.tryAcquire, hheld]

/-! ## Counting updates -/

theorem applied_eq_iterate {f : α → α} (h : ∀ entry ∈ sections, entry.2.finish = f) (value : α) :
    applied sections value = f^[sections.length] value := by
  induction sections generalizing value with
  | nil => rfl
  | cons entry rest ih =>
      rw [List.forall_mem_cons] at h
      rw [List.length_cons, Function.iterate_succ_apply, ← ih h.2, ← h.1]
      rfl

/-- A context is in the middle of updates by `f`, and has still to take the lock
some number of times. -/
inductive Pending (f : α → α) : Context α → ℕ → Prop
  | outside {times : ℕ} : Pending f (.running (.updates f times)) times
  | watching {times : ℕ} : Pending f (.watching (.updating f (.updates f times))) (times + 1)
  | reading {times : ℕ} : Pending f (.running (.updating f (.updates f times))) times
  | writing {times : ℕ} {seen : α} :
      Pending f (.running (.write (f seen) (.unlock (.updates f times)))) times
  | leaving {times : ℕ} : Pending f (.running (.unlock (.updates f times))) times

/-- Contexts that have together to take the lock some number of times. -/
inductive AllPending (f : α → α) : List (Context α) → ℕ → Prop
  | nil : AllPending f [] 0
  | cons {x : Context α} {l : List (Context α)} {times others : ℕ} (first : Pending f x times)
      (rest : AllPending f l others) : AllPending f (x :: l) (times + others)

variable {f : α → α} {times : ℕ}

/-- An access of a context in the middle of updates either leaves as many to do
or enters one of them. -/
theorem Pending.step
    {x x' : Context α} {s s' : Shared α} (h : Pending f x times)
    (hstep : step x s = some (x', s')) (hruns : ∀ failure, x' ≠ .stopped failure) :
    ∃ left, Pending f x' left ∧ (entered x s).length + left = times ∧
      ∀ entry ∈ entered x s, entry.2.finish = f := by
  obtain ⟨⟨kind, held⟩, value⟩ := s
  have hnone (hwants : x.wants? = none) (hx' : Pending f x' times) :
      ∃ left, Pending f x' left ∧ (entered x ⟨⟨kind, held⟩, value⟩).length + left = times ∧
        ∀ entry ∈ entered x ⟨⟨kind, held⟩, value⟩, entry.2.finish = f := by
    rw [entered_of_wants hwants]
    exact ⟨times, hx', Nat.zero_add times, nofun⟩
  cases h with
  | outside =>
      cases times with
      | zero => cases hstep
      | succ times =>
          cases held with
          | true =>
              cases hstep
              have hagain : Pending f (.running (.updates f (times + 1))) (times + 1) := .outside
              refine ⟨times + 1, ?_, Nat.zero_add _, nofun⟩
              cases kind with
              | spin => exact .watching
              | yielding => exact hagain
          | false =>
              cases hstep
              refine ⟨times, .reading, Nat.add_comm _ _, ?_⟩
              intro entry hentry
              rw [List.mem_singleton.1 hentry]
              exact Code.finish_updating f _
  | @watching times =>
      have hagain : Pending f (.running (.updates f (times + 1))) (times + 1) := .outside
      apply hnone rfl
      cases held with
      | true =>
          cases hstep
          exact .watching
      | false =>
          cases hstep
          exact hagain
  | reading =>
      apply hnone rfl
      cases hstep
      exact .writing
  | writing =>
      apply hnone rfl
      cases hstep
      exact .leaving
  | leaving =>
      apply hnone rfl
      cases held with
      | true =>
          cases hstep
          exact .outside
      | false =>
          cases hstep
          exact absurd rfl (hruns _)

/-- One of several contexts, and what the others have to do. -/
theorem AllPending.split
    {l : List (Context α)} (h : AllPending f l times) {i : ℕ} {x : Context α}
    (here : l[i]? = some x) :
    ∃ own others, Pending f x own ∧ times = own + others ∧
      ∀ x' own', Pending f x' own' → AllPending f (l.set i x') (own' + others) := by
  induction h generalizing i with
  | nil => cases here
  | @cons y l own others first rest ih =>
      cases i with
      | zero =>
          cases here
          exact ⟨own, others, first, rfl, fun x' own' hx' => .cons hx' rest⟩
      | succ i =>
          obtain ⟨own', others', hx, rfl, hset⟩ := ih here
          refine ⟨own', own + others', hx, Nat.add_left_comm _ _ _, fun x' own'' hx' => ?_⟩
          rw [Nat.add_left_comm]
          exact .cons first (hset x' own'' hx')

theorem allPending_start (f : α → α) (counts : List ℕ) :
    AllPending f ((counts.map (Code.updates f)).map .running) counts.sum := by
  induction counts with
  | nil => exact .nil
  | cons count rest ih => exact .cons .outside ih

theorem AllPending.eq_zero
    {l : List (Context α)} (h : AllPending f l times) (hended : ∀ x ∈ l, x.Ended) :
    times = 0 := by
  have hone {x : Context α} {own : ℕ} (hx : Pending f x own) (hend : x.Ended) : own = 0 := by
    cases hx with
    | outside =>
        cases own with
        | zero => rfl
        | succ own => cases hend
    | watching => cases hend
    | reading => cases hend
    | writing => cases hend
    | leaving => cases hend
  induction h with
  | nil => rfl
  | cons first rest ih =>
      rw [List.forall_mem_cons] at hended
      rw [hone first hended.1, ih hended.2]

/-- Every update is one section. -/
theorem Runs.allPending
    {counts : List ℕ} (h : Runs (start kind value (counts.map (Code.updates f))) c sections) :
    ∃ times, AllPending f c.contexts times ∧ sections.length + times = counts.sum ∧
      ∀ entry ∈ sections, entry.2.finish = f := by
  induction h with
  | refl => exact ⟨_, allPending_start f counts, Nat.zero_add _, nofun⟩
  | @tail c d sections i x before here last ih =>
      obtain ⟨times, hpending, hlength, hsections⟩ := ih
      obtain ⟨own, others, hx, rfl, hset⟩ := hpending.split here
      obtain ⟨x', s', rfl, hstep⟩ := exists_step here last
      have hruns (failure : Failure) : x' ≠ .stopped failure := by
        rintro rfl
        refine ((Exclusive.of_runs before).step here last).runs i failure ?_
        exact List.getElem?_set_self (List.getElem?_eq_some_iff.1 here).1
      obtain ⟨left, hx', hleft, hentered⟩ := hx.step hstep hruns
      refine ⟨left + others, hset x' left hx', ?_, ?_⟩
      · rw [List.length_append]
        omega
      · intro entry hentry
        rcases List.mem_append.1 hentry with hentry | hentry
        · exact hsections entry hentry
        · exact hentered entry hentry

/-! ## Whole runs -/

/-- Contexts that use a lock through its guards keep each other out, and the
value is what their sections make of it, each whole, in the order in which they
were entered.  In particular increments that read and write the value separately
add up. -/
theorem Runs.mutual_exclusion (h : Runs (start kind value codes) c sections) :
    Exclusive value sections c ∧
    (∀ (i guards : ℕ) (taken : Code α (guards + 1)) (refused : Code α guards),
      c.contexts[i]? = some (.running (.tryLock taken refused)) →
      (Vacant c ∧ c.stepAt step i =
        some ⟨{ c.shared with lock := { c.shared.lock with held := true } },
          c.contexts.set i (.running taken)⟩) ∨
      (¬ Vacant c ∧ c.stepAt step i = some ⟨c.shared, c.contexts.set i (.running refused)⟩)) ∧
    ∀ [AddMonoidWithOne α],
      (Vacant c → (∀ entry ∈ sections, entry.2.finish = (· + 1)) →
        c.shared.value = value + sections.length) ∧
      ∀ counts : List ℕ, codes = counts.map (Code.updates (· + 1)) →
        (∀ x ∈ c.contexts, x.Ended) → Vacant c ∧ c.shared.value = value + counts.sum := by
  have hexclusive := Exclusive.of_runs h
  refine ⟨hexclusive, fun i guards taken refused here => hexclusive.tries here, ?_⟩
  intro _
  have hadds (hvacant : Vacant c) (hsections : ∀ entry ∈ sections, entry.2.finish = (· + 1)) :
      c.shared.value = value + sections.length := by
    rw [hexclusive.value_free (hexclusive.held_eq_false hvacant), applied_eq_iterate hsections,
      add_right_iterate, nsmul_one]
  refine ⟨hadds, ?_⟩
  rintro counts rfl hended
  have hvacant : Vacant c := by
    intro x hx hinside
    rw [hended x hx] at hinside
    exact Nat.lt_irrefl 0 hinside
  obtain ⟨times, hpending, hlength, hsections⟩ := h.allPending
  rw [hpending.eq_zero hended, Nat.add_zero] at hlength
  refine ⟨hvacant, ?_⟩
  rw [← hlength]
  exact hadds hvacant hsections

/-- Two contexts take turns, and each adds one to a counter.  After the first
round one of them is in its section and the other watches the lock. -/
theorem exists_two_increments :
    ∃ (b c : Config (Shared ℕ) (Context ℕ)) (earlier sections : List (Entry ℕ)),
      Runs (start .spin 0 [.updates (· + 1) 1, .updates (· + 1) 1]) b earlier ∧
      Exclusive 0 earlier b ∧
      b.contexts = [.running (.updating (· + 1) (.stop : Code ℕ 0)),
        .watching (.updating (· + 1) (.stop : Code ℕ 0))] ∧
      Runs (start .spin 0 [.updates (· + 1) 1, .updates (· + 1) 1]) c sections ∧
      Exclusive 0 sections c ∧ Vacant c ∧ c.shared.value = 2 := by
  let first : Config (Shared ℕ) (Context ℕ) :=
    start .spin 0 [.updates (· + 1) 1, .updates (· + 1) 1]
  have hfirst : (first.settle step 1).contexts =
      [.running (.updating (· + 1) (.stop : Code ℕ 0)),
        .watching (.updating (· + 1) (.stop : Code ℕ 0))] := by cbv
  have hended : (first.settle step 8).contexts =
      [.running (.stop : Code ℕ 0), .running (.stop : Code ℕ 0)] := by cbv
  obtain ⟨earlier, hearlier⟩ := exists_runs (Config.reaches_settle step 1 first)
  obtain ⟨sections, hruns⟩ := exists_runs (Config.reaches_settle step 8 first)
  have hexclusive := hearlier.mutual_exclusion
  obtain ⟨hexclusive', -, hadds⟩ := hruns.mutual_exclusion
  have hcounts : ∀ x ∈ (first.settle step 8).contexts, x.Ended := by
    intro x hx
    rw [hended] at hx
    simpa [Context.Ended] using hx
  obtain ⟨hvacant, hvalue⟩ := hadds.2 [1, 1] rfl hcounts
  exact ⟨_, _, _, _, hearlier, hexclusive.1, hfirst, hruns, hexclusive', hvacant, hvalue⟩

end KernelMemory.Contention
