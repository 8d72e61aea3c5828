import KernelMemory.Bitmap.Basic

/-!
# Scanning a bitmap

The next free unit going up, and the last used unit going down.  Both scans
step over whole bytes that cannot hold an answer.  The main statements say
where an answer lies: `firstClearFrom` never answers below its start, and
`lastSetIn` never below the start of its window.
-/

namespace KernelMemory.Bitmap

/-- The first free unit at or above `i`, passing over full bytes. -/
def firstClearFrom (map : Bitmap) (i : Nat) : Result (Option Nat) :=
  if h : i < map.units then
    if i % 8 = 0 ∧ map.byte (i / 8) (map.div_eight_lt_length h) = 0xFF then do
      let _ ← Word.add i 8
      map.firstClearFrom (i + 8)
    else if map.bit i h then
      map.firstClearFrom (i + 1)
    else
      .ok (some i)
  else
    .ok none
termination_by map.units - i

/-- The last used unit from `start` up to but not including `stop`, passing
over empty bytes. -/
def lastSetIn (map : Bitmap) (start stop : Nat) (h : stop ≤ map.units) : Option Nat :=
  if hs : start < stop then
    have inside : stop / 8 - 1 < map.length ∧ stop - 1 < map.units := by
      have := map.units_le
      omega
    if stop % 8 = 0 ∧ 8 ≤ stop - start ∧ map.byte (stop / 8 - 1) inside.1 = 0 then
      map.lastSetIn start (stop - 8) (Nat.le_trans (Nat.sub_le _ _) h)
    else if map.bit (stop - 1) inside.2 then
      some (stop - 1)
    else
      map.lastSetIn start (stop - 1) (Nat.le_trans (Nat.sub_le _ _) h)
  else
    none
termination_by stop
decreasing_by all_goals omega

theorem le_of_firstClearFrom
    {map : Bitmap} {i free : Nat}
    (h : map.firstClearFrom i = .ok (some free)) :
    i ≤ free := by
  fun_induction firstClearFrom map i with
  | case1 i hi hfull ih =>
      cases hadd : Word.add i 8 with
      | error e => simp [hadd, bind, Except.bind] at h
      | ok m =>
          simp only [hadd, bind, Except.bind] at h
          exact Nat.le_trans (Nat.le_add_right i 8) (ih h)
  | case2 i hi _ _ ih => exact Nat.le_trans (Nat.le_add_right i 1) (ih h)
  | case3 i hi => simp_all
  | case4 i hi => simp at h

theorem le_of_lastSetIn
    {map : Bitmap} {start stop busy : Nat} {h : stop ≤ map.units}
    (hbusy : map.lastSetIn start stop h = some busy) :
    start ≤ busy := by
  fun_induction lastSetIn map start stop h with
  | case1 stop _ _ _ _ ih => exact ih hbusy
  | case2 stop _ hs => simp at hbusy; omega
  | case3 stop _ _ _ _ _ ih => exact ih hbusy
  | case4 stop => simp at hbusy

theorem lt_of_lastSetIn
    {map : Bitmap} {start stop busy : Nat} {h : stop ≤ map.units}
    (hbusy : map.lastSetIn start stop h = some busy) :
    busy < stop := by
  fun_induction lastSetIn map start stop h with
  | case1 stop _ _ _ _ ih => have := ih hbusy; omega
  | case2 stop _ hs => simp at hbusy; omega
  | case3 stop _ _ _ _ _ ih => have := ih hbusy; omega
  | case4 stop => simp at hbusy

end KernelMemory.Bitmap
