import KernelMemory.Proofs.Bitmap.Search

/-!
# The scans of a bitmap

Both scans pass over whole bytes, and still find what the bits say.  `scanUp?`
and `scanDown?` are the same scans over bytes that may be missing: they ask for
every byte that they look at, and break off if it is not there.  Over the bound
bytes of a bitmap they never break off, so no scan leaves the storage.

The main statement is `scans_agree`, for any storage, padding included.
-/

namespace KernelMemory.Bitmap

variable {map : Bitmap}

/-! ## Scans that ask for their bytes -/

section Reading

variable (bytes : ℕ → Option UInt8)

/-- Bit `i` of bytes that may be missing. -/
def bitOf? (i : ℕ) : Option Bool :=
  (bytes (i / 8)).map fun byte => byte &&& (1 <<< UInt8.ofNat (i % 8)) != 0

/-- Whether a full byte starts at unit `i`. -/
def fullAt? (i : ℕ) : Option Bool :=
  if i % 8 = 0 then (bytes (i / 8)).map (· == 0xFF) else some false

/-- Whether an empty byte that lies above `start` ends at unit `stop`. -/
def emptyBelow? (start stop : ℕ) : Option Bool :=
  if stop % 8 = 0 ∧ 8 ≤ stop - start then (bytes (stop / 8 - 1)).map (· == 0) else some false

/-- The first free unit from `i` up to `units`, passing over full bytes. -/
def scanUp? (units i : ℕ) : Option (Option ℕ) :=
  if i < units then do
    if ← fullAt? bytes i then
      scanUp? units (i + 8)
    else if ← bitOf? bytes i then
      scanUp? units (i + 1)
    else
      return some i
  else
    return none
termination_by units - i

/-- The last used unit from `start` up to but not including `stop`, passing
over empty bytes. -/
def scanDown? (start stop : ℕ) : Option (Option ℕ) :=
  if start < stop then do
    if ← emptyBelow? bytes start stop then
      scanDown? start (stop - 8)
    else if ← bitOf? bytes (stop - 1) then
      return some (stop - 1)
    else
      scanDown? start (stop - 1)
  else
    return none
termination_by stop

end Reading

/-! ## Reading a bitmap -/

/-- A bound byte, if there is one in this place. -/
def byte? (map : Bitmap) (k : ℕ) : Option UInt8 :=
  if h : k < map.length then some (map.byte k h) else none

theorem byte?_of_lt {k : ℕ} (h : k < map.length) : map.byte? k = some (map.byte k h) :=
  dif_pos h

theorem bitOf?_byte? {i : ℕ} (h : i < map.units) : bitOf? map.byte? i = some (map.bit i h) := by
  rw [bitOf?, byte?_of_lt (map.div_eight_lt_length h), Option.map_some, bit]

theorem fullAt?_byte? {i : ℕ} (h : i < map.units) :
    fullAt? map.byte? i =
      some (decide (i % 8 = 0 ∧ map.byte (i / 8) (map.div_eight_lt_length h) = 0xFF)) := by
  rw [fullAt?, byte?_of_lt (map.div_eight_lt_length h)]
  by_cases hstart : i % 8 = 0 <;> simp [hstart, beq_eq_decide]

theorem emptyBelow?_byte? {start stop : ℕ} (h : stop / 8 - 1 < map.length) :
    emptyBelow? map.byte? start stop =
      some (decide (stop % 8 = 0 ∧ 8 ≤ stop - start ∧ map.byte (stop / 8 - 1) h = 0)) := by
  rw [emptyBelow?, byte?_of_lt h]
  by_cases hend : stop % 8 = 0 ∧ 8 ≤ stop - start <;> simp [← and_assoc, hend, beq_eq_decide]

/-- The scan upwards finds every byte that it asks for. -/
theorem scanUp?_byte? {i : ℕ} {answer : Option ℕ} (h : map.firstClearFrom i = .ok answer) :
    scanUp? map.byte? map.units i = some answer := by
  fun_induction firstClearFrom map i with
  | case1 i hi hfull ih =>
      rw [scanUp?, if_pos hi, fullAt?_byte? hi, decide_eq_true hfull]
      cases hadd : Word.add i 8 with
      | error failure => simp [hadd, bind, Except.bind] at h
      | ok next =>
          simp only [hadd, bind, Except.bind] at h
          exact ih h
  | case2 i hi hfull hbit ih =>
      rw [scanUp?, if_pos hi, fullAt?_byte? hi, decide_eq_false hfull, bitOf?_byte? hi, hbit]
      exact ih h
  | case3 i hi hfull hbit =>
      rw [scanUp?, if_pos hi, fullAt?_byte? hi, decide_eq_false hfull, bitOf?_byte? hi,
        Bool.eq_false_of_not_eq_true hbit]
      cases h
      rfl
  | case4 i hi =>
      rw [scanUp?, if_neg hi]
      cases h
      rfl

theorem scanDown?_byte? (start stop : ℕ) (h : stop ≤ map.units) :
    scanDown? map.byte? start stop = some (map.lastSetIn start stop h) := by
  fun_induction lastSetIn map start stop h with
  | case1 stop h hs hinside hempty ih =>
      rw [scanDown?, if_pos hs, emptyBelow?_byte? hinside.1, decide_eq_true hempty]
      exact ih
  | case2 stop h hs hinside hempty hbit =>
      rw [scanDown?, if_pos hs, emptyBelow?_byte? hinside.1, decide_eq_false hempty,
        bitOf?_byte? hinside.2, hbit]
      rfl
  | case3 stop h hs hinside hempty hbit ih =>
      rw [scanDown?, if_pos hs, emptyBelow?_byte? hinside.1, decide_eq_false hempty,
        bitOf?_byte? hinside.2, Bool.eq_false_of_not_eq_true hbit]
      exact ih
  | case4 stop h hs =>
      rw [scanDown?, if_neg hs]
      rfl

/-! ## What the scans find -/

def freeFrom (map : Bitmap) (start : ℕ) : Set ℕ :=
  {i | start ≤ i ∧ i < map.units ∧ map.test i = .ok false}

def usedBetween (map : Bitmap) (start stop : ℕ) : Set ℕ :=
  {i | start ≤ i ∧ i < stop ∧ map.test i = .ok true}

theorem mem_freeFrom {start i : ℕ} :
    i ∈ map.freeFrom start ↔ start ≤ i ∧ i < map.units ∧ map.isSet i = false := by
  refine and_congr_right fun _ => and_congr_right fun hi => ?_
  rw [map.test_of_lt hi, Except.ok.injEq]

theorem mem_usedBetween {start stop i : ℕ} (h : stop ≤ map.units) :
    i ∈ map.usedBetween start stop ↔ start ≤ i ∧ i < stop ∧ map.isSet i = true := by
  refine and_congr_right fun _ => and_congr_right fun hi => ?_
  rw [map.test_of_lt (hi.trans_le h), Except.ok.injEq]

theorem firstClearFrom_isLeast (hunits : map.units ≤ maxUnits) (start : ℕ) :
    (∃ i, map.firstClearFrom start = .ok (some i) ∧ IsLeast (map.freeFrom start) i) ∨
    (map.firstClearFrom start = .ok none ∧ map.freeFrom start = ∅) := by
  rcases map.firstClearFrom_cases hunits start with
    ⟨free, hscan, hle, hlt, hclear, hbelow⟩ | ⟨hscan, hall⟩
  · refine Or.inl ⟨free, hscan, mem_freeFrom.2 ⟨hle, hlt, hclear⟩, ?_⟩
    intro i hi
    obtain ⟨hstart, -, hfree⟩ := mem_freeFrom.1 hi
    by_contra hnot
    rw [hbelow i hstart (Nat.lt_of_not_le hnot)] at hfree
    exact Bool.false_ne_true hfree.symm
  · refine Or.inr ⟨hscan, Set.eq_empty_of_forall_notMem ?_⟩
    intro i hi
    obtain ⟨hstart, hlt, hfree⟩ := mem_freeFrom.1 hi
    rw [hall i hstart hlt] at hfree
    exact Bool.false_ne_true hfree.symm

theorem lastSetIn_isGreatest (start stop : ℕ) (h : stop ≤ map.units) :
    (∃ i, map.lastSetIn start stop h = some i ∧ IsGreatest (map.usedBetween start stop) i) ∨
    (map.lastSetIn start stop h = none ∧ map.usedBetween start stop = ∅) := by
  rcases map.lastSetIn_cases start stop h with
    ⟨busy, hscan, hle, hlt, hset, habove⟩ | ⟨hscan, hall⟩
  · refine Or.inl ⟨busy, hscan, (mem_usedBetween h).2 ⟨hle, hlt, hset⟩, ?_⟩
    intro i hi
    obtain ⟨-, hstop, hused⟩ := (mem_usedBetween h).1 hi
    by_contra hnot
    rw [habove i (Nat.lt_of_not_le hnot) hstop] at hused
    exact Bool.false_ne_true hused
  · refine Or.inr ⟨hscan, Set.eq_empty_of_forall_notMem ?_⟩
    intro i hi
    obtain ⟨hstart, hstop, hused⟩ := (mem_usedBetween h).1 hi
    rw [hall i hstart hstop] at hused
    exact Bool.false_ne_true hused

/-- The scans of a bitmap with at most `2 ^ 63` units, over storage with any
content, padding included.  From wherever it starts, the scan upwards delivers
the least free unit, or nothing if there is none; in every window of the bitmap
the scan downwards gives the greatest used unit, or nothing if there is none;
and either gets every byte that it asks for from the bound bytes alone. -/
theorem scans_agree (map : Bitmap) (hunits : map.units ≤ 2 ^ 63) :
    (∀ start, ∃ answer, map.firstClearFrom start = .ok answer ∧
      scanUp? map.byte? map.units start = some answer ∧
      ((∃ i, answer = some i ∧ IsLeast (map.freeFrom start) i) ∨
        (answer = none ∧ map.freeFrom start = ∅))) ∧
    (∀ start stop (h : stop ≤ map.units), ∃ answer, map.lastSetIn start stop h = answer ∧
      scanDown? map.byte? start stop = some answer ∧
      ((∃ i, answer = some i ∧ IsGreatest (map.usedBetween start stop) i) ∨
        (answer = none ∧ map.usedBetween start stop = ∅))) := by
  constructor
  · intro start
    rcases firstClearFrom_isLeast hunits start with ⟨i, hscan, hleast⟩ | ⟨hscan, hempty⟩
    · exact ⟨some i, hscan, scanUp?_byte? hscan, Or.inl ⟨i, rfl, hleast⟩⟩
    · exact ⟨none, hscan, scanUp?_byte? hscan, Or.inr ⟨rfl, hempty⟩⟩
  · intro start stop h
    exact ⟨_, rfl, scanDown?_byte? start stop h, lastSetIn_isGreatest start stop h⟩

/-- Twenty-seven units over two full bytes, one with a hole, and one whose
padding is set.  The scan upwards passes over the full bytes and finds the hole;
the scan downwards does not see the padding, and finds the used unit in front of
three free ones. -/
theorem exists_scanned_bitmap :
    ∃ map, (attach 27).perform ⟨#[0xFF, 0xFF, 0xF7, 0xF8]⟩ = (.ok map, map.storage) ∧
      map.units ≤ 2 ^ 63 ∧
      map.firstClearFrom 0 = .ok (some 19) ∧
      ∃ h : 27 ≤ map.units, map.lastSetIn 9 27 h = some 23 ∧
        scanDown? map.byte? 9 27 = some (some 23) := by
  obtain ⟨map, hattach, hunits, hstorage⟩ :=
    exists_attach ⟨#[0xFF, 0xFF, 0xF7, 0xF8]⟩ (show 0 < 27 by decide) (by decide)
  have hsmall : map.units ≤ 2 ^ 63 := by rw [hunits]; decide
  have hstop : 27 ≤ map.units := hunits.ge
  have hbits : ∀ i, map.isSet i = Bytes.bit ⟨#[0xFF, 0xFF, 0xF7, 0xF8]⟩ i := by
    intro i
    rw [isSet, hstorage]
  obtain ⟨hup, hdown⟩ := map.scans_agree hsmall
  have hhole : IsLeast (map.freeFrom 0) 19 := by
    have hused : ∀ i < 19, Bytes.bit ⟨#[0xFF, 0xFF, 0xF7, 0xF8]⟩ i = true := by decide
    refine ⟨mem_freeFrom.2 ⟨by decide, by omega, by rw [hbits]; decide⟩, ?_⟩
    intro i hi
    by_contra hlt
    have hfree := (mem_freeFrom.1 hi).2.2
    rw [hbits, hused i (Nat.lt_of_not_le hlt)] at hfree
    cases hfree
  have hlast : IsGreatest (map.usedBetween 9 27) 23 := by
    have hfree : ∀ i < 27, 23 < i → Bytes.bit ⟨#[0xFF, 0xFF, 0xF7, 0xF8]⟩ i = false := by decide
    refine ⟨(mem_usedBetween hstop).2 ⟨by decide, by decide, by rw [hbits]; decide⟩, ?_⟩
    intro i hi
    obtain ⟨-, hi, hset⟩ := (mem_usedBetween hstop).1 hi
    by_contra hlt
    rw [hbits, hfree i hi (Nat.lt_of_not_le hlt)] at hset
    cases hset
  refine ⟨map, hattach, hsmall, ?_, hstop, ?_⟩
  · obtain ⟨answer, hscan, -, ⟨i, rfl, hleast⟩ | ⟨-, hempty⟩⟩ := hup 0
    · rw [hscan, hleast.unique hhole]
    · exact absurd hhole.1 (hempty ▸ Set.notMem_empty 19)
  · obtain ⟨answer, hscan, hreads, ⟨i, rfl, hgreatest⟩ | ⟨-, hempty⟩⟩ := hdown 9 27 hstop
    · rw [hscan, hreads, hgreatest.unique hlast]
      exact ⟨rfl, rfl⟩
    · exact absurd hlast.1 (hempty ▸ Set.notMem_empty 23)

end KernelMemory.Bitmap
