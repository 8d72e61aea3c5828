import KernelMemory.Proofs.Bitmap.Count
import KernelMemory.Proofs.Bitmap.Search
import Mathlib.Data.Bool.Count

/-!
# A bitmap as a list of booleans

To its owner a bitmap is a list with one entry for each tracked unit.
`UnitList.serve` is what such a list answers to a request and what it becomes;
`entries` reads the list off the storage, entry `i` off bit `i % 8` of byte
`i / 8`.

Two statements are about whole bitmaps.  `takes_lowest_aligned_run` says which
run an allocation takes.  `unitList_refinement` says that whatever storage is
bound, and however, a run of requests is answered as the list answers it; bits
that are not tracked stay as they were, and a request that is refused changes
nothing.  Arguments of requests are arbitrary machine words.
-/

namespace KernelMemory

/-- One entry for each tracked unit of a bitmap. -/
abbrev UnitList := List Bool

namespace Bitmap

open Section (asking)

/-! ## Requests -/

/-- What an owner asks of a bitmap. -/
inductive Request where
  | test (index : UInt64)
  | set (index : UInt64) (value : Bool)
  | setRange (start count : UInt64) (value : Bool)
  | clearRange (start count : UInt64)
  | isRangeSet (start count : UInt64)
  | alloc (count : UInt64)
  | allocAligned (count align : UInt64)
  | countOnes
  | countZeros

/-- What a request is answered with when it is granted. -/
abbrev Request.Answer : Request → Type
  | .test _ | .isRangeSet .. => Bool
  | .set .. | .setRange .. | .clearRange .. => Unit
  | .alloc _ | .allocAligned .. | .countOnes | .countZeros => ℕ

def Request.body : (request : Request) → Section Bitmap request.Answer
  | .test index => asking (·.test index.toNat)
  | .set index value => Bitmap.set index.toNat value
  | .setRange start count value => Bitmap.setRange start.toNat count.toNat value
  | .clearRange start count => Bitmap.clearRange start.toNat count.toNat
  | .isRangeSet start count => asking (·.isRangeSet start.toNat count.toNat)
  | .alloc count => Bitmap.alloc count.toNat
  | .allocAligned count align => Bitmap.allocAligned count.toNat align.toNat
  | .countOnes => asking fun map => return map.countOnes
  | .countZeros => asking (·.countZeros)

/-- A request and what it was answered. -/
structure Reply where
  request : Request
  answer : Result request.Answer

def serveAll : List Request → Bitmap → List Reply × Bitmap
  | [], map => ([], map)
  | request :: requests, map =>
      let (answer, map') := request.body.perform map
      let (replies, map'') := serveAll requests map'
      (⟨request, answer⟩ :: replies, map'')

end Bitmap

/-! ## The list -/

namespace UnitList

open Bitmap (Request Reply)

def run (v : UnitList) (start count : ℕ) : UnitList := (v.drop start).take count

/-- The list with `value` in the entries of a run. -/
def fill (v : UnitList) (start count : ℕ) (value : Bool) : UnitList :=
  v.take start ++ List.replicate count value ++ v.drop (start + count)

/-- Whether `count` false entries start at `start`, a multiple of `align`. -/
def fits (v : UnitList) (count align start : ℕ) : Bool :=
  start % align == 0 && start + count ≤ v.length && (v.run start count).all (!·)

/-- The refusal of a range, which names its last index, or the last machine
word if the range runs past that. -/
def rangeRefusal (v : UnitList) (start count : ℕ) : AllocError :=
  .outOfRange (min (start + count) (Word.count - 1) - 1) v.length

/-- Writes a range, and refuses one that leaves the list. -/
def write (v : UnitList) (start count : ℕ) (value : Bool) : Result Unit × UnitList :=
  if start + count ≤ v.length then (.ok (), v.fill start count value)
  else (.refuse (v.rangeRefusal start count), v)

/-- Takes the lowest run that fits. -/
def allot (v : UnitList) (count align : ℕ) : Result ℕ × UnitList :=
  if count = 0 then (.refuse (.invalidArgument .emptyRun), v)
  else if ¬ align.isPowerOfTwo then (.refuse (.invalidArgument .alignmentNotPowerOfTwo), v)
  else
    match lowest? v.length (v.fits count align) with
    | some start => (.ok start, v.fill start count true)
    | none => (.refuse .outOfMemory, v)

/-- What a list answers to a request, and what it becomes. -/
def serve (v : UnitList) : (request : Request) → Result request.Answer × UnitList
  | .test index =>
      (if h : index.toNat < v.length then .ok v[index.toNat]
        else .refuse (.outOfRange index.toNat v.length), v)
  | .set index value =>
      if index.toNat < v.length then (.ok (), v.set index.toNat value)
      else (.refuse (.outOfRange index.toNat v.length), v)
  | .setRange start count value => v.write start.toNat count.toNat value
  | .clearRange start count => v.write start.toNat count.toNat false
  | .isRangeSet start count =>
      (if start.toNat + count.toNat ≤ v.length then
          .ok ((v.run start.toNat count.toNat).all id)
        else .refuse (v.rangeRefusal start.toNat count.toNat), v)
  | .alloc count => v.allot count.toNat 1
  | .allocAligned count align => v.allot count.toNat align.toNat
  | .countOnes => (.ok (v.count true), v)
  | .countZeros => (.ok (v.count false), v)

def serveAll : List Request → UnitList → List Reply × UnitList
  | [], v => ([], v)
  | request :: requests, v =>
      let (answer, v') := v.serve request
      let (replies, v'') := serveAll requests v'
      (⟨request, answer⟩ :: replies, v'')

theorem getElem?_fill
    {v : UnitList} {start count : ℕ} (h : start + count ≤ v.length) (value : Bool) (i : ℕ) :
    (v.fill start count value)[i]? =
      if start ≤ i ∧ i < start + count then some value else v[i]? := by
  have hlength : (v.take start ++ List.replicate count value).length = start + count := by
    rw [List.length_append, List.length_take, List.length_replicate]
    omega
  rw [fill]
  by_cases hbelow : i < start + count
  · rw [List.getElem?_append_left (by omega)]
    by_cases hlow : i < start
    · rw [List.getElem?_append_left (by rw [List.length_take]; omega),
        List.getElem?_take_of_lt hlow, if_neg (by omega)]
    · rw [List.getElem?_append_right (by rw [List.length_take]; omega), List.length_take,
        List.getElem?_replicate_of_lt (by omega), if_pos (by omega)]
  · have hi : start + count + (i - (start + count)) = i := by omega
    rw [List.getElem?_append_right (by omega), hlength, List.getElem?_drop, hi,
      if_neg (by omega)]

end UnitList

namespace Bitmap

/-! ## The list that a bitmap shows -/

/-- Which of the tracked units are in use. -/
def entries (map : Bitmap) : UnitList := (List.range map.units).map map.isSet

variable {map map' : Bitmap}

@[simp] theorem length_entries (map : Bitmap) : map.entries.length = map.units := by
  rw [entries, List.length_map, List.length_range]

theorem getElem?_entries (map : Bitmap) (i : ℕ) :
    map.entries[i]? = if i < map.units then some (map.isSet i) else none := by
  rw [entries, List.getElem?_map]
  split_ifs with hi
  · rw [List.getElem?_range hi, Option.map_some]
  · rw [List.getElem?_eq_none (by rw [List.length_range]; omega), Option.map_none]

theorem entries_eq_of
    {v : UnitList} (hlength : v.length = map.units)
    (h : ∀ i, i < map.units → v[i]? = some (map.isSet i)) : map.entries = v := by
  apply List.ext_getElem?
  intro i
  rw [getElem?_entries]
  split_ifs with hi
  · exact (h i hi).symm
  · exact (List.getElem?_eq_none (by omega)).symm

theorem all_run_entries
    {start count : ℕ} (h : start + count ≤ map.units) (p : Bool → Bool) :
    (map.entries.run start count).all p = true ↔
      ∀ i, start ≤ i → i < start + count → p (map.isSet i) = true := by
  have hlookup (k : ℕ) (hk : k < count) :
      (map.entries.run start count)[k]? = some (map.isSet (start + k)) := by
    rw [UnitList.run, List.getElem?_take_of_lt hk, List.getElem?_drop, getElem?_entries,
      if_pos (by omega)]
  have hlength : (map.entries.run start count).length ≤ count := List.length_take_le _ _
  rw [List.all_eq_true]
  constructor
  · intro hall i hlow hhigh
    have hi : start + (i - start) = i := by omega
    rw [← hi]
    exact hall _ (List.mem_of_getElem? (hlookup (i - start) (by omega)))
  · intro hall entry hentry
    obtain ⟨k, hk⟩ := List.mem_iff_getElem?.1 hentry
    obtain ⟨hlt, -⟩ := List.getElem?_eq_some_iff.1 hk
    rw [hlookup k (by omega), Option.some.injEq] at hk
    rw [← hk]
    exact hall _ (by omega) (by omega)

/-- The list sees the runs that fit. -/
theorem fits_entries {count align start : ℕ} :
    map.entries.fits count align start = true ↔ map.Fits count align start := by
  rw [UnitList.fits, length_entries, Bool.and_eq_true, Bool.and_eq_true, beq_iff_eq,
    decide_eq_true_eq, ← Nat.dvd_iff_mod_eq_zero]
  constructor
  · rintro ⟨⟨aligned, inside⟩, clear⟩
    refine ⟨aligned, inside, fun i hlow hhigh => ?_⟩
    exact Bool.not_eq_true' _ ▸ (all_run_entries inside _).1 clear i hlow hhigh
  · rintro ⟨aligned, inside, clear⟩
    refine ⟨⟨aligned, inside⟩, (all_run_entries inside _).2 fun i hlow hhigh => ?_⟩
    rw [clear i hlow hhigh, Bool.not_false]

theorem entries_put {i : ℕ} (h : i < map.units) (value : Bool) :
    (map.put i h value).entries = map.entries.set i value := by
  have hunits := (map.sameShape_put h value).units
  refine entries_eq_of (by rw [List.length_set, length_entries, hunits]) fun j hj => ?_
  rw [hunits] at hj
  rw [List.getElem?_set, isSet_put, length_entries, getElem?_entries, if_pos hj, if_pos h]
  by_cases hij : j = i
  · rw [if_pos hij.symm, if_pos hij]
  · rw [if_neg (Ne.symm hij), if_neg hij]

theorem entries_fill
    {start count : ℕ} (h : start + count ≤ map.units) (value : Bool) :
    (map.fill start (start + count) h value).entries = map.entries.fill start count value := by
  have hunits := (map.sameShape_fill start (start + count) h value).units
  have hinside : start + count ≤ map.entries.length := by rwa [length_entries]
  refine entries_eq_of ?_ fun i hi => ?_
  · rw [hunits, ← length_entries, UnitList.fill]
    simp only [List.length_append, List.length_take, List.length_replicate, List.length_drop]
    omega
  · rw [hunits] at hi
    rw [UnitList.getElem?_fill hinside, isSet_fill, getElem?_entries, if_pos hi]
    split_ifs <;> rfl

theorem count_true_entries (map : Bitmap) : map.entries.count true = map.countOnes := by
  rw [countOnes_eq_card, setUnits, ← Nat.count_eq_card_filter_range, Nat.count, entries,
    List.count, List.countP_map]
  rfl

theorem count_false_entries (map : Bitmap) :
    map.entries.count false = map.units - map.setUnits.card := by
  have hsum := List.count_true_add_count_false map.entries
  rw [count_true_entries, countOnes_eq_card, length_entries] at hsum
  omega

/-! ## Serving requests -/

/-- The refusals of a bitmap with so many units: an index that is named lies
outside. -/
inductive Explained (units : ℕ) : AllocError → Prop
  | outOfRange {index : ℕ} (outside : units ≤ index) :
      Explained units (.outOfRange index units)
  | outOfMemory : Explained units .outOfMemory
  | invalidArgument (why : Misuse) : Explained units (.invalidArgument why)

/-- What a bitmap does with a request: it answers as its list does, keeps the
bits it does not track, and is unchanged if it refuses. -/
structure Served (map : Bitmap) (request : Request) (answer : Result request.Answer)
    (map' : Bitmap) : Prop where
  performs : request.body.perform map = (answer, map')
  serves : map.entries.serve request = (answer, map'.entries)
  shape : SameShape map' map
  untracked : ∀ i, map.units ≤ i → map'.isSet i = map.isSet i
  refused : ∀ failure, answer = .error failure →
    map' = map ∧ ∃ error, failure = .refused error ∧ Explained map.units error

section Requests

variable {request : Request} {answer : Result request.Answer}

theorem Served.of_asking
    {a : request.Answer} (performs : request.body.perform map = (.ok a, map))
    (serves : map.entries.serve request = (.ok a, map.entries)) :
    Served map request (.ok a) map :=
  ⟨performs, serves, .refl map, fun _ _ => rfl, nofun⟩

theorem Served.of_refusal
    {error : AllocError} (performs : request.body.perform map = (.refuse error, map))
    (serves : map.entries.serve request = (.refuse error, map.entries))
    (explained : Explained map.units error) :
    Served map request (.refuse error) map where
  performs := performs
  serves := serves
  shape := .refl map
  untracked := fun _ _ => rfl
  refused := by
    rintro _ ⟨⟩
    exact ⟨rfl, error, rfl, explained⟩

theorem Served.of_fill
    {a : request.Answer} {start count : ℕ} {value : Bool} (h : start + count ≤ map.units)
    (performs : request.body.perform map = (.ok a, map.fill start (start + count) h value))
    (serves : map.entries.serve request = (.ok a, map.entries.fill start count value)) :
    Served map request (.ok a) (map.fill start (start + count) h value) where
  performs := performs
  serves := entries_fill h value ▸ serves
  shape := map.sameShape_fill start (start + count) h value
  untracked := fun i hi => by rw [isSet_fill, if_neg (by omega)]
  refused := nofun

theorem explained_index {index : ℕ} (h : ¬ index < map.units) :
    Explained map.units (map.indexRefusal index) :=
  .outOfRange (Nat.le_of_not_lt h)

/-- The index in the refusal of a range is no unit, also where the end of the
range is no machine word. -/
theorem explained_range
    (hunits : map.units ≤ maxUnits) {start count : ℕ} (h : ¬ start + count ≤ map.units) :
    Explained map.units (map.rangeRefusal start count) := by
  have hmax := maxUnits_add_maxUnits
  have hpos : 2 ≤ maxUnits := by decide
  exact .outOfRange (by omega)

theorem rangeRefusal_entries (map : Bitmap) (start count : ℕ) :
    map.entries.rangeRefusal start count = map.rangeRefusal start count := by
  rw [UnitList.rangeRefusal, length_entries, rangeRefusal]

theorem exists_served_test (map : Bitmap) (index : UInt64) :
    ∃ answer map', Served map (.test index) answer map' := by
  by_cases h : index.toNat < map.units
  · refine ⟨.ok (map.isSet index.toNat), map, .of_asking ?_ ?_⟩
    · rw [Request.body, Section.perform_asking, map.test_of_lt h]
    · have hentry := getElem?_entries map index.toNat
      rw [if_pos h, List.getElem?_eq_some_iff] at hentry
      obtain ⟨hlt, hentry⟩ := hentry
      rw [UnitList.serve, dif_pos hlt, hentry]
  · refine ⟨_, _, .of_refusal ?_ ?_ (explained_index h)⟩
    · rw [Request.body, Section.perform_asking, test, dif_neg h]
    · rw [UnitList.serve, dif_neg (by rwa [length_entries]), length_entries, indexRefusal]

theorem exists_served_set (map : Bitmap) (index : UInt64) (value : Bool) :
    ∃ answer map', Served map (.set index value) answer map' := by
  by_cases h : index.toNat < map.units
  · refine ⟨.ok (), map.put index.toNat h value, ?_, ?_, map.sameShape_put h value, ?_, nofun⟩
    · exact map.perform_set_of_lt h value
    · rw [UnitList.serve, if_pos (by rwa [length_entries]), entries_put]
    · intro i hi
      rw [isSet_put, if_neg (by omega)]
  · refine ⟨_, _, .of_refusal ?_ ?_ (explained_index h)⟩
    · exact map.perform_set_of_not h value
    · rw [UnitList.serve, if_neg (by rwa [length_entries]), length_entries, indexRefusal]

theorem exists_served_isRangeSet
    (hunits : map.units ≤ maxUnits) (start count : UInt64) :
    ∃ answer map', Served map (.isRangeSet start count) answer map' := by
  by_cases h : start.toNat + count.toNat ≤ map.units
  · refine ⟨.ok (map.allSet start.toNat (start.toNat + count.toNat) h), map,
      .of_asking ?_ ?_⟩
    · rw [Request.body, Section.perform_asking, map.isRangeSet_of_le h]
    · have hall : (map.entries.run start.toNat count.toNat).all id =
          map.allSet start.toNat (start.toNat + count.toNat) h := by
        rw [Bool.eq_iff_iff, all_run_entries h, allSet_eq_true_iff]
        rfl
      rw [UnitList.serve, if_pos (by rwa [length_entries]), hall]
  · refine ⟨_, _, .of_refusal ?_ ?_ (explained_range hunits h)⟩
    · rw [Request.body, Section.perform_asking, isRangeSet, dif_neg h]
    · rw [UnitList.serve, if_neg (by rwa [length_entries]), rangeRefusal_entries]

theorem exists_served_setRange
    (hunits : map.units ≤ maxUnits) (start count : UInt64) (value : Bool) :
    ∃ answer map', Served map (.setRange start count value) answer map' := by
  by_cases h : start.toNat + count.toNat ≤ map.units
  · refine ⟨.ok (), map.fill start.toNat (start.toNat + count.toNat) h value,
      .of_fill h (map.perform_setRange_of_le h value) ?_⟩
    rw [UnitList.serve, UnitList.write, if_pos (by rwa [length_entries])]
  · refine ⟨_, _, .of_refusal (map.perform_setRange_of_not h value) ?_ (explained_range hunits h)⟩
    rw [UnitList.serve, UnitList.write, if_neg (by rwa [length_entries]),
        rangeRefusal_entries]

theorem le_maxUnits_of_isPowerOfTwo {align : ℕ} (hpow : align.isPowerOfTwo)
    (h : align < Word.count) : align ≤ maxUnits := by
  obtain ⟨k, rfl⟩ := hpow
  have hk : k < 64 := (Nat.pow_lt_pow_iff_right (by decide)).1 h
  exact Nat.pow_le_pow_right (by decide) (Nat.le_of_lt_succ hk)

/-- What an allocation does, whatever its count and alignment. -/
theorem allocAligned_lowest?
    (hunits : map.units ≤ maxUnits) (count : ℕ) {align : ℕ} (halign : align < Word.count) :
    (∃ start, ∃ h : start + count ≤ map.units,
      (allocAligned count align).perform map =
        (.ok start, map.fill start (start + count) h true) ∧
      map.entries.allot count align = (.ok start, map.entries.fill start count true)) ∨
    (∃ error, Explained map.units error ∧
      (allocAligned count align).perform map = (.refuse error, map) ∧
      map.entries.allot count align = (.refuse error, map.entries)) := by
  by_cases hcount : count = 0
  · refine Or.inr ⟨_, .invalidArgument .emptyRun, ?_, ?_⟩
    · rw [allocAligned, Section.perform_get_bind, if_pos hcount]
      rfl
    · rw [UnitList.allot, if_pos hcount]
  by_cases hpow : align.isPowerOfTwo
  · have hbound (t : ℕ) (ht : map.entries.fits count align t = true) :
        t < map.entries.length := by
      have := (fits_entries.1 ht).inside
      rw [length_entries]
      omega
    rcases map.allocAligned_cases hunits (Nat.pos_of_ne_zero hcount) hpow
        (le_maxUnits_of_isPowerOfTwo hpow halign) with
      ⟨start, hleast, h, halloc⟩ | ⟨hnone, halloc⟩
    · have hlowest : lowest? map.entries.length (map.entries.fits count align) = some start := by
        rw [lowest?_eq_some_iff hbound]
        simpa only [fits_entries] using hleast
      refine Or.inl ⟨start, h, halloc, ?_⟩
      rw [UnitList.allot, if_neg hcount, if_neg (not_not_intro hpow), hlowest]
    · have hlowest : lowest? map.entries.length (map.entries.fits count align) = none := by
        rw [lowest?_eq_none_iff hbound]
        simpa only [fits_entries] using hnone
      refine Or.inr ⟨_, .outOfMemory, halloc, ?_⟩
      rw [UnitList.allot, if_neg hcount, if_neg (not_not_intro hpow), hlowest]
  · refine Or.inr ⟨_, .invalidArgument .alignmentNotPowerOfTwo, ?_, ?_⟩
    · rw [allocAligned, Section.perform_get_bind, if_neg hcount, if_pos hpow]
      rfl
    · rw [UnitList.allot, if_neg hcount, if_pos hpow]

theorem exists_served_allocAligned
    (hunits : map.units ≤ maxUnits) (count align : UInt64) :
    ∃ answer map', Served map (.allocAligned count align) answer map' := by
  rcases allocAligned_lowest? hunits count.toNat align.toNat_lt with
    ⟨start, h, halloc, hallot⟩ | ⟨error, hexplained, halloc, hallot⟩
  · exact ⟨.ok start, map.fill start (start + count.toNat) h true,
      .of_fill h halloc hallot⟩
  · exact ⟨.refuse error, map, .of_refusal halloc hallot hexplained⟩

theorem Served.alloc
    {count : UInt64} {answer : Result ℕ} (h : Served map (.allocAligned count 1) answer map') :
    Served map (.alloc count) answer map' :=
  ⟨h.performs, h.serves, h.shape, h.untracked, h.refused⟩

theorem Served.clearRange
    {start count : UInt64} {answer : Result Unit}
    (h : Served map (.setRange start count false) answer map') :
    Served map (.clearRange start count) answer map' :=
  ⟨h.performs, h.serves, h.shape, h.untracked, h.refused⟩

/-- Every request is served, and as the list says. -/
theorem exists_served (hunits : map.units ≤ maxUnits) (request : Request) :
    ∃ answer map', Served map request answer map' := by
  cases request with
  | test index => exact exists_served_test map index
  | set index value => exact exists_served_set map index value
  | setRange start count value => exact exists_served_setRange hunits start count value
  | clearRange start count =>
      obtain ⟨answer, map', h⟩ := exists_served_setRange hunits start count false
      exact ⟨answer, map', h.clearRange⟩
  | isRangeSet start count => exact exists_served_isRangeSet hunits start count
  | alloc count =>
      obtain ⟨answer, map', h⟩ := exists_served_allocAligned hunits count 1
      exact ⟨answer, map', h.alloc⟩
  | allocAligned count align => exact exists_served_allocAligned hunits count align
  | countOnes =>
      refine ⟨.ok map.countOnes, map, .of_asking (Section.perform_asking _ map) ?_⟩
      rw [UnitList.serve, count_true_entries]
  | countZeros =>
      refine ⟨.ok (map.units - map.setUnits.card), map, .of_asking ?_ ?_⟩
      · rw [Request.body, Section.perform_asking, countZeros_eq]
      · rw [UnitList.serve, count_false_entries]

end Requests

/-- What a bitmap is after any requests: its list has gone along, and the bits it
does not track are those it had. -/
theorem exists_serveAll (hunits : map.units ≤ maxUnits) (requests : List Request) :
    ∃ replies map', serveAll requests map = (replies, map') ∧
      map.entries.serveAll requests = (replies, map'.entries) ∧ SameShape map' map ∧
      ∀ i, map.units ≤ i → map'.isSet i = map.isSet i := by
  induction requests generalizing map with
  | nil => exact ⟨[], map, rfl, rfl, .refl map, fun _ _ => rfl⟩
  | cons request requests ih =>
      obtain ⟨answer, map', h⟩ := exists_served hunits request
      obtain ⟨replies, map'', hall, hlist, hshape, hrest⟩ := ih (h.shape.units.trans_le hunits)
      refine ⟨⟨request, answer⟩ :: replies, map'', ?_, ?_, hshape.trans h.shape, ?_⟩
      · simp only [serveAll, h.performs, hall]
      · simp only [UnitList.serveAll, h.serves, hlist]
      · intro i hi
        rw [hrest i (h.shape.units.trans_le hi), h.untracked i hi]

/-- An allocation takes the lowest aligned run of free units, marks it and
changes no other bit.  It runs out of memory only if no run fits, and then
nothing changes.  Without an alignment, any start is a multiple of one. -/
theorem takes_lowest_aligned_run
    (map : Bitmap) (hunits : map.units ≤ maxUnits) {count align : UInt64} (hcount : 0 < count)
    (hpow : align.toNat.isPowerOfTwo) :
    ((∃ start map',
        (Request.allocAligned count align).body.perform map = (.ok start, map') ∧
        IsLeast {t | map.Fits count.toNat align.toNat t} start ∧ SameShape map' map ∧
        ∀ i, map'.isSet i =
          if start ≤ i ∧ i < start + count.toNat then true else map.isSet i) ∨
      ((Request.allocAligned count align).body.perform map = (.refuse .outOfMemory, map) ∧
        ∀ t, ¬ map.Fits count.toNat align.toNat t)) ∧
    (Request.alloc count).body.perform map = (Request.allocAligned count 1).body.perform map := by
  refine ⟨?_, rfl⟩
  have halign : align.toNat ≤ maxUnits := le_maxUnits_of_isPowerOfTwo hpow align.toNat_lt
  rcases map.allocAligned_cases hunits (UInt64.lt_iff_toNat_lt.1 hcount) hpow halign with
    ⟨start, hleast, h, halloc⟩ | ⟨hnone, halloc⟩
  · exact Or.inl ⟨start, _, halloc, hleast,
      map.sameShape_fill _ _ h true, map.isSet_fill _ _ h true⟩
  · exact Or.inr ⟨halloc, hnone⟩

/-- Thirteen units, of which the first five and one more are in use, before
three padding bits that are set.  The lowest even start of three free units is
the sixth, and the run goes into the second byte. -/
theorem takes_run_from_six :
    ∃ map, (attach 13).perform ⟨#[0x1F, 0xE2]⟩ = (.ok map, map.storage) ∧
      map.units ≤ maxUnits ∧
      ∃ map', (Request.allocAligned 3 2).body.perform map = (.ok (6 : ℕ), map') ∧
        SameShape map' map ∧
        ∀ i, map'.isSet i = if 6 ≤ i ∧ i < 6 + 3 then true else map.isSet i := by
  obtain ⟨map, hattach, hunits, hstorage⟩ :=
    exists_attach ⟨#[0x1F, 0xE2]⟩ (by decide : 0 < 13) (by decide)
  have hmax : map.units ≤ maxUnits := by rw [hunits]; decide
  have hfits : map.Fits 3 2 6 := by
    have hclear : ∀ i < 9, 6 ≤ i → Bytes.bit ⟨#[0x1F, 0xE2]⟩ i = false := by decide
    refine ⟨by decide, by rw [hunits]; decide, fun i hlow hhigh => ?_⟩
    rw [isSet, hstorage, hclear i hhigh hlow]
  refine ⟨map, hattach, hmax, ?_⟩
  have hcount : (0 : UInt64) < 3 := by decide
  have hpow : (2 : UInt64).toNat.isPowerOfTwo := ⟨1, rfl⟩
  obtain ⟨⟨start, map', hrun, hleast, hshape, hbits⟩ | ⟨-, hnone⟩, -⟩ :=
    takes_lowest_aligned_run map hmax hcount hpow
  · have hstart : start = 6 := by
      have hused : ∀ t < 6, 2 ∣ t → Bytes.bit ⟨#[0x1F, 0xE2]⟩ t = true := by decide
      have hclear := hleast.1.clear start (le_refl start) (Nat.lt_add_of_pos_right (by decide))
      rw [isSet, hstorage] at hclear
      refine Nat.le_antisymm (hleast.2 hfits) (Nat.le_of_not_lt fun hlt => ?_)
      rw [hused start hlt hleast.1.aligned] at hclear
      cases hclear
    subst hstart
    exact ⟨map', hrun, hshape, hbits⟩
  · exact absurd hfits (hnone 6)

end Bitmap

end KernelMemory
