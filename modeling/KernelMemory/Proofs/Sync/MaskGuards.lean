import KernelMemory.Proofs.Program.Solo
import KernelMemory.Sync.Interrupts
import Mathlib.Data.List.Perm.Basic

/-!
# Masking guards in any order

A context creates masking guards and drops them in any order it likes.  Each
guard knows only what it found; what all of them together say of the flag is
`Balanced`: at most one of the guards that live has found interrupts enabled,
and they are enabled now exactly if they were at first and no such guard lives.

If guards are dropped last in, first out, only the oldest can have found
interrupts enabled (`Stacked`), so they stay disabled until it is dropped.
-/

namespace KernelMemory.Interrupts

/-- What a context does with its guards. -/
inductive Command where
  | create
  /-- Drops the guard numbered `i` of those that live, the newest first. -/
  | drop (i : ℕ)

/-- A context with the guards that it has not dropped, the newest first. -/
structure Holder (κ : Type) where
  machine : Machine κ Bool
  live : List MaskGuard

/-- Commands that name guards which live, for a context with `n` guards. -/
def Named : List Command → ℕ → Prop
  | [], _ => True
  | .create :: commands, n => Named commands (n + 1)
  | .drop i :: commands, n => i < n ∧ Named commands (n - 1)

/-- Guards are dropped last in, first out. -/
def Nested (commands : List Command) : Prop := ∀ i, .drop i ∈ commands → i = 0

variable {κ : Type} {holder : Holder κ} {initially : Bool} {commands : List Command}

section Obeying

variable [DecidableEq κ]

/-- Does what a command says; `none` if it names no guard. -/
def Command.obey (command : Command) (holder : Holder κ) : Option (Holder κ) :=
  match command with
  | .create =>
      match (createGuard flag).run holder.machine with
      | some (.ok guard, machine) => some ⟨machine, guard :: holder.live⟩
      | _ => none
  | .drop i =>
      match holder.live[i]? with
      | none => none
      | some guard =>
          match (dropGuard flag guard).run holder.machine with
          | some (.ok (), machine) => some ⟨machine, holder.live.eraseIdx i⟩
          | _ => none

/-- Does what commands say, one after the other. -/
def obeyAll : List Command → Holder κ → Option (Holder κ)
  | [], holder => some holder
  | command :: commands, holder => (command.obey holder).bind (obeyAll commands)

theorem obey_create (holder : Holder κ) :
    Command.create.obey holder =
      some ⟨{ holder.machine with state := false },
        ⟨holder.machine.state⟩ :: holder.live⟩ := by
  obtain ⟨⟨locks, log, enabled⟩, live⟩ := holder
  cases enabled <;> rfl

theorem obey_drop {i : ℕ} {guard : MaskGuard} (h : holder.live[i]? = some guard) :
    (Command.drop i).obey holder =
      some ⟨{ holder.machine with state := guard.wereEnabled || holder.machine.state },
        holder.live.eraseIdx i⟩ := by
  obtain ⟨⟨locks, log, enabled⟩, live⟩ := holder
  obtain ⟨wereEnabled⟩ := guard
  simp only [Command.obey, h]
  cases wereEnabled <;> rfl

end Obeying

/-! ## Any order -/

/-- What the guards of a context say of its flag. -/
structure Balanced (initially : Bool) (holder : Holder κ) : Prop where
  single : holder.live.countP MaskGuard.wereEnabled ≤ 1
  recorded : ∀ guard ∈ holder.live, guard.wereEnabled = true → initially = true
  enabled_iff : holder.machine.state = true ↔
    initially = true ∧ ∀ guard ∈ holder.live, guard.wereEnabled = false

theorem Balanced.create (h : Balanced initially holder) :
    Balanced initially ⟨{ holder.machine with state := false },
      ⟨holder.machine.state⟩ :: holder.live⟩ := by
  have henabled := h.enabled_iff
  cases hstate : holder.machine.state with
  | false =>
      rw [hstate] at henabled
      refine ⟨?_, ?_, ?_⟩
      · rw [List.countP_cons_of_neg Bool.false_ne_true]
        exact h.single
      · intro guard hguard hrecorded
        rcases List.mem_cons.1 hguard with rfl | hold
        · cases hrecorded
        · exact h.recorded guard hold hrecorded
      · rw [List.forall_mem_cons]
        exact henabled.trans (and_congr_right fun _ => (and_iff_right rfl).symm)
  | true =>
      obtain ⟨hinitially, hnone⟩ := henabled.1 hstate
      have hzero : holder.live.countP MaskGuard.wereEnabled = 0 := by
        rw [List.countP_eq_zero]
        intro guard hguard
        rw [hnone guard hguard]
        exact Bool.false_ne_true
      refine ⟨?_, fun _ _ _ => hinitially, ?_⟩
      · have hone : (⟨true⟩ :: holder.live).countP MaskGuard.wereEnabled = 1 := by
          rw [List.countP_cons_of_pos rfl, hzero]
        exact Nat.le_of_eq hone
      · constructor
        · intro hfalse
          cases hfalse
        · rintro ⟨-, hall⟩
          cases hall _ List.mem_cons_self

theorem Balanced.drop
    {i : ℕ} {guard : MaskGuard} (h : Balanced initially holder)
    (hguard : holder.live[i]? = some guard) :
    Balanced initially
      ⟨{ holder.machine with state := guard.wereEnabled || holder.machine.state },
        holder.live.eraseIdx i⟩ := by
  obtain ⟨hlt, hget⟩ := List.getElem?_eq_some_iff.1 hguard
  have hperm : (guard :: holder.live.eraseIdx i).Perm holder.live :=
    hget ▸ List.getElem_cons_eraseIdx_perm hlt
  have hcount := h.single
  rw [← hperm.countP_eq] at hcount
  have hrecorded : ∀ other ∈ guard :: holder.live.eraseIdx i,
      other.wereEnabled = true → initially = true := fun other hother =>
    h.recorded other (hperm.mem_iff.1 hother)
  rw [List.forall_mem_cons] at hrecorded
  cases henabled : guard.wereEnabled with
  | false =>
      rw [List.countP_cons_of_neg (by rw [henabled]; exact Bool.false_ne_true)] at hcount
      refine ⟨hcount, hrecorded.2, ?_⟩
      rw [Bool.false_or, h.enabled_iff]
      refine and_congr_right fun _ => ?_
      simp only [← hperm.mem_iff, List.forall_mem_cons, henabled, true_and]
  | true =>
      rw [List.countP_cons_of_pos henabled] at hcount
      have hnone : ∀ other ∈ holder.live.eraseIdx i, other.wereEnabled = false := by
        have hzero := List.countP_eq_zero.1 (Nat.le_zero.1 (Nat.le_of_succ_le_succ hcount))
        intro other hother
        exact Bool.eq_false_iff.2 (hzero other hother)
      refine ⟨Nat.le_of_succ_le hcount, hrecorded.2, ?_⟩
      rw [Bool.true_or]
      exact iff_of_true rfl ⟨hrecorded.1 henabled, hnone⟩

theorem balanced_nil (machine : Machine κ Bool) : Balanced machine.state ⟨machine, []⟩ :=
  ⟨Nat.zero_le 1, nofun, (and_iff_left nofun).symm⟩

/-- Commands that name guards are obeyed, and keep the balance. -/
theorem Balanced.exists_obeyAll
    [DecidableEq κ] (h : Balanced initially holder) (hnamed : Named commands holder.live.length) :
    ∃ holder', obeyAll commands holder = some holder' ∧ Balanced initially holder' := by
  induction commands generalizing holder with
  | nil => exact ⟨holder, rfl, h⟩
  | cons command commands ih =>
      cases command with
      | create =>
          rw [obeyAll, obey_create, Option.bind_some]
          exact ih h.create hnamed
      | drop i =>
          obtain ⟨hi, hrest⟩ := hnamed
          have hguard := List.getElem?_eq_getElem hi
          rw [obeyAll, obey_drop hguard, Option.bind_some]
          refine ih (h.drop hguard) ?_
          rwa [List.length_eraseIdx_of_lt hi]

/-! ## Last in, first out -/

/-- Guards of which only the oldest can have found interrupts enabled, if they
were `initially`. -/
inductive Stacked (initially : Bool) : List MaskGuard → Prop
  | nil : Stacked initially []
  | oldest : Stacked initially [⟨initially⟩]
  | newer {guard : MaskGuard} {live : List MaskGuard} (older : Stacked initially (guard :: live)) :
      Stacked initially (⟨false⟩ :: guard :: live)

/-- The flag of a context whose guards are stacked. -/
structure Shielded (initially : Bool) (holder : Holder κ) : Prop where
  stacked : Stacked initially holder.live
  state : holder.machine.state = (holder.live.isEmpty && initially)

theorem Shielded.create (h : Shielded initially holder) :
    Shielded initially ⟨{ holder.machine with state := false },
      ⟨holder.machine.state⟩ :: holder.live⟩ := by
  refine ⟨?_, rfl⟩
  obtain ⟨machine, live⟩ := holder
  obtain ⟨hstacked, hstate⟩ := h
  simp only at hstacked hstate
  rw [hstate]
  cases live with
  | nil => exact .oldest
  | cons guard live => exact .newer hstacked

theorem Shielded.drop
    {guard : MaskGuard} {live : List MaskGuard} (h : Shielded initially holder)
    (hlive : holder.live = guard :: live) :
    Shielded initially
      ⟨{ holder.machine with state := guard.wereEnabled || holder.machine.state }, live⟩ := by
  obtain ⟨hstacked, hstate⟩ := h
  rw [hlive] at hstacked hstate
  cases hstacked with
  | oldest => exact ⟨.nil, by rw [hstate]; exact Bool.or_false _⟩
  | newer older => exact ⟨older, by rw [hstate]; rfl⟩

/-- Commands that drop the newest guard only keep interrupts disabled while a
guard lives. -/
theorem Shielded.of_obeyAll
    [DecidableEq κ] {holder' : Holder κ} (h : Shielded initially holder) (hnested : Nested commands)
    (hobey : obeyAll commands holder = some holder') : Shielded initially holder' := by
  induction commands generalizing holder with
  | nil =>
      cases hobey
      exact h
  | cons command commands ih =>
      have hrest : Nested commands := fun i hi => hnested i (List.mem_cons_of_mem _ hi)
      cases command with
      | create =>
          rw [obeyAll, obey_create, Option.bind_some] at hobey
          exact ih h.create hrest hobey
      | drop i =>
          obtain rfl : i = 0 := hnested i List.mem_cons_self
          cases hlive : holder.live with
          | nil => simp [obeyAll, Command.obey, hlive] at hobey
          | cons guard live =>
              have hguard : holder.live[0]? = some guard := by rw [hlive]; rfl
              rw [obeyAll, obey_drop hguard, Option.bind_some] at hobey
              simp only [hlive, List.eraseIdx_cons_zero] at hobey
              exact ih (h.drop hlive) hrest hobey

end KernelMemory.Interrupts
