import KernelMemory.Proofs.World.Accounting
import KernelMemory.Proofs.World.Commands

/-!
# Moved heaps

Two heaps over pools of the same size are given the same commands.  Their pools
start anywhere, and what memory and bitmap storage held before, how clients see
memory and what they store to their blocks and frames differs as it likes.  The
main statement `Twins.agree` says that nobody can tell the two apart by what they
answer or report, up to the distance between the pools.
-/

namespace KernelMemory

open Arena

/-- A heap over a pool of `total` frames before its first command. -/
def Plan.empty (total : ℕ) : Plan where
  total := total
  leases := List.replicate Parameters.maxHeapRegions none
  blocks := ∅
  held := ∅

namespace World

variable {base base' : PhysAddr} {w w' : World} {command : Command}

/-- Two worlds after the same commands since they were fresh, over pools at
`base` and at `base'` with the same number of frames.  In each of the two,
clients store what they like to their blocks and frames. -/
inductive Twins (base base' : PhysAddr) : World → World → Prop
  | fresh {w w' : World} (left : w.Fresh) (right : w'.Fresh) (leftBase : w.frames.base = base)
      (rightBase : w'.frames.base = base')
      (total : w.frames.totalFrames = w'.frames.totalFrames) : Twins base base' w w'
  | command {w w' : World} {command : Command}
      {result : Result (command.call base).Answer} {machine : Machine LockName Arena}
      {result' : Result (command.call base').Answer} {machine' : Machine LockName Arena}
      (twins : Twins base base' w w') (permitted : w.Permits (command.call base))
      (run : (command.call base).program.run w.machine = some (result, machine))
      (run' : (command.call base').program.run w'.machine = some (result', machine')) :
      Twins base base' (w.called (command.call base) result machine)
        (w'.called (command.call base') result' machine')
  | storeLeft {w w' : World} {pa : PhysAddr} {byte : UInt8} (twins : Twins base base' w w')
      (permitted : Rules.confined.mayStore w pa) : Twins base base' (w.stored pa byte) w'
  | storeRight {w w' : World} {pa : PhysAddr} {byte : UInt8} (twins : Twins base base' w w')
      (permitted : Rules.confined.mayStore w' pa) : Twins base base' w (w'.stored pa byte)

/-! ## One world -/

theorem Fresh.plan_eq (h : w.Fresh) : w.plan = Plan.empty w.frames.totalFrames := by
  obtain ⟨map, hheap⟩ := h.heap
  have hregions : w.regions = List.replicate Parameters.maxHeapRegions none := by
    rw [regions, hheap]
    rfl
  refine Plan.ext rfl ?_ ?_ h.held
  · rw [plan_leases, hregions, List.map_replicate]
    rfl
  · change w.ledger.image _ = ∅
    rw [h.ledger, Finset.image_empty]

theorem Reachable.exists_run
    (h : Reachable Rules.confined w) (hbase : w.frames.base = base) (command : Command) :
    ∃ result machine, (command.call base).program.run w.machine = some (result, machine) := by
  subst hbase
  obtain ⟨result, machine, hrun, -⟩ :=
    follows h.orderly h.tidy_of_confined.tracked h.abandoned_eq command
  exact ⟨result, machine, hrun⟩

/-- What a run of a command answers and leaves is a matter of the plan. -/
theorem Reachable.perform_eq
    (h : Reachable Rules.confined w) (hbase : w.frames.base = base)
    {result : Result (command.call base).Answer} {machine : Machine LockName Arena}
    (hrun : (command.call base).program.run w.machine = some (result, machine)) :
    w.plan.perform command =
      (command.view base result, (w.called (command.call base) result machine).plan) := by
  subst hbase
  obtain ⟨result', machine', hrun', hperform⟩ :=
    follows h.orderly h.tidy_of_confined.tracked h.abandoned_eq command
  rw [hrun, Option.some.injEq, Prod.mk.injEq] at hrun'
  obtain ⟨rfl, rfl⟩ := hrun'
  exact hperform

theorem Reachable.base_called
    (h : Reachable Rules.confined w) (hpermitted : w.Permits (command.call base))
    {result : Result (command.call base).Answer} {machine : Machine LockName Arena}
    (hrun : (command.call base).program.run w.machine = some (result, machine)) :
    (w.called (command.call base) result machine).frames.base = w.frames.base :=
  (h.orderly.called_change hpermitted hrun).2.base_eq

/-! ## Two worlds -/

/-- What twins have in common. -/
structure Alike (base base' : PhysAddr) (w w' : World) : Prop where
  left : Reachable Rules.confined w
  right : Reachable Rules.confined w'
  leftBase : w.frames.base = base
  rightBase : w'.frames.base = base'
  plan : w.plan = w'.plan

namespace Alike

variable (h : Alike base base' w w')
include h

theorem permits_iff (command : Command) :
    w.Permits (command.call base) ↔ w'.Permits (command.call base') := by
  have hleft := World.permits_iff h.left.orderly h.left.abandoned_eq command
  have hright := World.permits_iff h.right.orderly h.right.abandoned_eq command
  rw [h.leftBase] at hleft
  rw [h.rightBase] at hright
  rw [hleft, hright, h.plan]

theorem perform_eq
    {result : Result (command.call base).Answer} {machine : Machine LockName Arena}
    {result' : Result (command.call base').Answer} {machine' : Machine LockName Arena}
    (hrun : (command.call base).program.run w.machine = some (result, machine))
    (hrun' : (command.call base').program.run w'.machine = some (result', machine')) :
    command.view base result = command.view base' result' ∧
      (w.called (command.call base) result machine).plan =
        (w'.called (command.call base') result' machine').plan := by
  have hleft := h.left.perform_eq h.leftBase hrun
  have hright := h.right.perform_eq h.rightBase hrun'
  rw [h.plan, hright, Prod.mk.injEq] at hleft
  exact ⟨hleft.1.symm, hleft.2.symm⟩

/-- A command keeps twins alike. -/
theorem called
    {result : Result (command.call base).Answer} {machine : Machine LockName Arena}
    {result' : Result (command.call base').Answer} {machine' : Machine LockName Arena}
    (hpermitted : w.Permits (command.call base))
    (hrun : (command.call base).program.run w.machine = some (result, machine))
    (hrun' : (command.call base').program.run w'.machine = some (result', machine')) :
    Alike base base' (w.called (command.call base) result machine)
      (w'.called (command.call base') result' machine') where
  left := h.left.step (.call hpermitted hrun)
  right := h.right.step (.call ((h.permits_iff command).1 hpermitted) hrun')
  leftBase := (h.left.base_called hpermitted hrun).trans h.leftBase
  rightBase :=
    (h.right.base_called ((h.permits_iff command).1 hpermitted) hrun').trans h.rightBase
  plan := (h.perform_eq hrun hrun').2

end Alike

/-- Twins stay alike.  What clients store is no matter of the plan. -/
theorem Twins.alike (h : Twins base base' w w') : Alike base base' w w' := by
  induction h with
  | fresh left right leftBase rightBase total =>
      have hplan := left.plan_eq
      rw [total, ← right.plan_eq] at hplan
      exact ⟨.fresh left, .fresh right, leftBase, rightBase, hplan⟩
  | command _ permitted run run' ih => exact ih.called permitted run run'
  | storeLeft _ permitted ih =>
      exact ⟨ih.left.step (.store permitted), ih.right, ih.leftBase, ih.rightBase, ih.plan⟩
  | storeRight _ permitted ih =>
      exact ⟨ih.left, ih.right.step (.store permitted), ih.leftBase, ih.rightBase, ih.plan⟩

/-- Twins report the same, permit the same, and deliver the same on every
command: the same refusals, and addresses at the same distance from the start of
the pool. -/
theorem Twins.agree (h : Twins base base' w w') :
    (∃ usage frames bytes leased,
      w.Reports usage frames bytes leased ∧ w'.Reports usage frames bytes leased) ∧
    ∀ command, (w.Permits (Command.call base command) ↔ w'.Permits (Command.call base' command)) ∧
      ∃ result machine result' machine',
        (Command.call base command).program.run w.machine = some (result, machine) ∧
        (Command.call base' command).program.run w'.machine = some (result', machine') ∧
        command.view base result = command.view base' result' := by
  have halike := h.alike
  constructor
  · have hleft := reports halike.left.orderly halike.left.tidy_of_confined.tracked
      halike.left.abandoned_eq
    have hright := reports halike.right.orderly halike.right.tidy_of_confined.tracked
      halike.right.abandoned_eq
    rw [halike.plan] at hleft
    exact ⟨_, _, _, _, hleft, hright⟩
  · intro command
    refine ⟨halike.permits_iff command, ?_⟩
    obtain ⟨result, machine, hrun⟩ := halike.left.exists_run halike.leftBase command
    obtain ⟨result', machine', hrun'⟩ := halike.right.exists_run halike.rightBase command
    exact ⟨result, machine, result', machine', hrun, hrun', (halike.perform_eq hrun hrun').1⟩

/-- Where a first block of a hundred bytes goes in a pool of thirty-two
frames. -/
theorem perform_empty :
    ((Plan.empty 32).perform (.alloc 100)).1 = .ok (.address ⟨0x400⟩) := by
  have hgrowth : (Plan.empty 32).growth? 7 1 = some (0, ⟨0, 16⟩) := by
    rw [Plan.growth?, framesFor_seven]
    rfl
  change ((Plan.empty 32).allocAligned 100 16).1 = _
  rw [Plan.allocAligned, if_neg (by decide), if_pos ⟨⟨4, rfl⟩, by decide⟩]
  change ((Plan.empty 32).allocate 7 1).1 = _
  rw [Plan.allocate, hgrowth]
  rfl

/-- A first block over zeroes at one address, and over bytes that are all set at
another. -/
theorem exists_twins_allocated :
    ∃ (w w' : World) (result result' : Result PhysAddr)
      (machine machine' : Machine LockName Arena),
      w.memory.get ⟨0x100000⟩ = 0 ∧ w'.memory.get ⟨0x7000⟩ = 255 ∧
      Twins ⟨0x100000⟩ ⟨0x7000⟩ w w' ∧
      (alloc 100).run w.machine = some (result, machine) ∧
      (alloc 100).run w'.machine = some (result', machine') ∧
      (Command.alloc 100).view ⟨0x100000⟩ result = .ok (.address ⟨0x400⟩) ∧
      (Command.alloc 100).view ⟨0x7000⟩ result' = .ok (.address ⟨0x400⟩) ∧
      ∃ usage frames bytes leased,
        (w.called (.alloc 100) result machine).Reports usage frames bytes leased ∧
        (w'.called (.alloc 100) result' machine').Reports usage frames bytes leased := by
  have husable : FramePool.Usable ⟨0x7000⟩ 0x20fff (Bytes.replicate 4 255) :=
    ⟨by decide, by decide, by decide, by decide⟩
  obtain ⟨w, hfresh, hbase, htotal, hmemory⟩ := exists_fresh_thirtyTwo (.filled ⟨0x100000⟩ 1 0)
  obtain ⟨w', hfresh', hbase', htotal', hmemory', -⟩ :=
    exists_fresh husable (.filled ⟨0x7000⟩ 1 255) (.at 0x1000) (by decide) (by decide)
  have htwins : Twins ⟨0x100000⟩ ⟨0x7000⟩ w w' :=
    .fresh hfresh hfresh' hbase hbase' (htotal.trans htotal'.symm)
  obtain ⟨-, hcommands⟩ := htwins.agree
  obtain ⟨-, result, machine, result', machine', hrun, hrun', hview⟩ := hcommands (.alloc 100)
  have hpermitted : w.Permits (Command.call ⟨0x100000⟩ (.alloc 100)) := trivial
  have hlater := htwins.command hpermitted hrun hrun'
  obtain ⟨hreports, -⟩ := hlater.agree
  have hplan : w.plan = Plan.empty 32 := by
    rw [hfresh.plan_eq, htotal]
  have hleft : (Command.alloc 100).view ⟨0x100000⟩ result = .ok (.address ⟨0x400⟩) := by
    rw [← perform_empty, ← hplan, htwins.alike.left.perform_eq hbase hrun]
  exact ⟨w, w', result, result', machine, machine', by rw [hmemory]; rfl, by rw [hmemory']; rfl,
    htwins, hrun, hrun', hleft, hview ▸ hleft, hreports⟩

end World

end KernelMemory
