import KernelMemory.Heap.Basic
import KernelMemory.Proofs.Heap.Edits
import Mathlib.Algebra.BigOperators.Group.Finset.Basic

/-!
# The region table

Slots and sums over the table, and the two sections that search it in slot
order.  A search edits the maps of one region and the record of that region in
the table, and nothing else; a search that finds nothing changes nothing.
-/

namespace KernelMemory

abbrev RegionTable := List (Option Region)

namespace RegionTable

def Has (table : RegionTable) (slot : ℕ) (region : Region) : Prop :=
  table[slot]? = some (some region)

variable {table : RegionTable} {slot other : ℕ} {region : Region}

theorem Has.lt (h : table.Has slot region) : slot < table.length := by
  rw [Has, List.getElem?_eq_some_iff] at h
  exact h.1

theorem Has.unique {region' : Region} (h : table.Has slot region) (h' : table.Has slot region') :
    region = region' := by
  rw [Has, h] at h'
  cases h'
  rfl

theorem region?_eq_some_iff {heap : Heap} :
    heap.region? slot = some region ↔ Has heap.regions slot region := by
  rw [Heap.region?, Has, Option.join_eq_some_iff]

theorem has_set_self_iff {content : Option Region} (hslot : slot < table.length) :
    Has (table.set slot content) slot region ↔ content = some region := by
  rw [Has, List.getElem?_set_self hslot, Option.some.injEq]

theorem has_set_ne_iff {content : Option Region} (hne : slot ≠ other) :
    Has (table.set slot content) other region ↔ table.Has other region := by
  rw [Has, Has, List.getElem?_set_ne hne]

theorem has_set_iff {content : Option Region} (hslot : slot < table.length) :
    Has (table.set slot content) other region ↔
      (other = slot ∧ content = some region) ∨ (other ≠ slot ∧ table.Has other region) := by
  by_cases hother : other = slot
  · subst hother
    simp [has_set_self_iff hslot]
  · simp [has_set_ne_iff (Ne.symm hother), hother]

theorem has_set_none_iff :
    Has (table.set slot none) other region ↔ table.Has other region ∧ other ≠ slot := by
  rw [Has, Has, List.getElem?_set]
  by_cases hother : slot = other
  · subst hother
    simp
  · simp [hother, Ne.symm hother]

theorem not_has_replicate (n : ℕ) : ¬ Has (List.replicate n none) slot region := by
  rw [Has, List.getElem?_replicate]
  split_ifs <;> simp

theorem has_cons_succ_iff {content : Option Region} :
    Has (content :: table) (slot + 1) region ↔ table.Has slot region := by
  rw [Has, Has, List.getElem?_cons_succ]

theorem has_cons_zero_iff {content : Option Region} :
    Has (content :: table) 0 region ↔ content = some region := by
  rw [Has, List.getElem?_cons_zero, Option.some.injEq]

theorem Has.cons_cases {content : Option Region} (h : Has (content :: table) slot region) :
    (slot = 0 ∧ content = some region) ∨ ∃ rest, slot = rest + 1 ∧ table.Has rest region := by
  cases slot with
  | zero => exact Or.inl ⟨rfl, has_cons_zero_iff.1 h⟩
  | succ rest => exact Or.inr ⟨rest, rfl, has_cons_succ_iff.1 h⟩

theorem exists_has_cons_iff {content : Option Region} {P : Region → Prop} :
    (∃ slot region, Has (content :: table) slot region ∧ P region) ↔
      (∃ region, content = some region ∧ P region) ∨
        ∃ slot region, Has table slot region ∧ P region := by
  constructor
  · rintro ⟨slot, region, hhas, hregion⟩
    rcases hhas.cons_cases with ⟨-, hcontent⟩ | ⟨k, -, hhas⟩
    · exact Or.inl ⟨region, hcontent, hregion⟩
    · exact Or.inr ⟨k, region, hhas, hregion⟩
  · rintro (⟨region, hcontent, hregion⟩ | ⟨slot, region, hhas, hregion⟩)
    · exact ⟨0, region, has_cons_zero_iff.2 hcontent, hregion⟩
    · exact ⟨slot + 1, region, has_cons_succ_iff.2 hhas, hregion⟩

theorem not_has_nil : ¬ Has [] slot region := by
  intro h
  cases h

/-- What a search answers about the rest of a table, for the whole table. -/
def behind {α : Type} (content : Option Region) (found : Option (α × RegionTable)) :
    Option (α × RegionTable) :=
  found.map fun found => (found.1, content :: found.2)

/-! ## Sums over the table -/

/-- The sum of a quantity over the regions of a table. -/
def total (f : Region → ℕ) (table : RegionTable) : ℕ := (table.map (·.elim 0 f)).sum

theorem total_replicate_none (f : Region → ℕ) (n : ℕ) :
    total f (List.replicate n none) = 0 := by
  induction n with
  | zero => rfl
  | succ n ih => rw [List.replicate_succ, total, List.map_cons, List.sum_cons, ← total, ih]; rfl

theorem total_set (f : Region → ℕ) {old : Option Region} (content : Option Region)
    (h : table[slot]? = some old) :
    total f (table.set slot content) + old.elim 0 f = total f table + content.elim 0 f := by
  induction table generalizing slot with
  | nil => cases h
  | cons head rest ih =>
      cases slot with
      | zero =>
          rw [List.getElem?_cons_zero, Option.some.injEq] at h
          subst h
          simp only [total, List.set_cons_zero, List.map_cons, List.sum_cons]
          omega
      | succ slot =>
          rw [List.getElem?_cons_succ] at h
          have hrest := ih h
          simp only [total, List.set_cons_succ, List.map_cons, List.sum_cons] at hrest ⊢
          omega

theorem total_mono {f g : Region → ℕ}
    (h : ∀ slot region, table.Has slot region → f region ≤ g region) :
    total f table ≤ total g table := by
  induction table with
  | nil => exact Nat.le_refl _
  | cons head rest ih =>
      have hrest := ih fun slot region hhas => h (slot + 1) region (has_cons_succ_iff.2 hhas)
      have hhead : head.elim 0 f ≤ head.elim 0 g := by
        cases head with
        | none => exact Nat.le_refl _
        | some region => exact h 0 region (has_cons_zero_iff.2 rfl)
      simp only [total, List.map_cons, List.sum_cons] at hrest ⊢
      omega

theorem total_congr {f g : Region → ℕ}
    (h : ∀ slot region, table.Has slot region → f region = g region) :
    total f table = total g table :=
  Nat.le_antisymm (total_mono fun slot region hhas => Nat.le_of_eq (h slot region hhas))
    (total_mono fun slot region hhas => Nat.le_of_eq (h slot region hhas).symm)

theorem total_le_length (table : RegionTable) : total (fun _ => 1) table ≤ table.length := by
  induction table with
  | nil => exact Nat.le_refl _
  | cons content rest ih =>
      simp only [total, List.map_cons, List.sum_cons, List.length_cons] at ih ⊢
      have hcontent : content.elim 0 (fun _ : Region => 1) ≤ 1 := by
        cases content with
        | none => exact Nat.zero_le 1
        | some region => exact Nat.le_refl 1
      omega

theorem total_mul (c : ℕ) (f : Region → ℕ) (table : RegionTable) :
    total (fun region => c * f region) table = c * total f table := by
  induction table with
  | nil => rfl
  | cons content rest ih =>
      simp only [total, List.map_cons, List.sum_cons] at ih ⊢
      rw [ih, Nat.mul_add]
      cases content <;> rfl

/-- A sum over a set made of one part for each region, and a rest apart from
them. -/
theorem sum_eq_total
    {α : Type} [DecidableEq α] (part : Region → Finset α) (weight : α → ℕ) {all : Finset α}
    (rest : Finset α)
    (hapart : ∀ i j a b, table.Has i a → table.Has j b → i ≠ j → Disjoint (part a) (part b))
    (hrest : ∀ slot region, table.Has slot region → Disjoint rest (part region))
    (hall : ∀ x, x ∈ all ↔ x ∈ rest ∨ ∃ slot region, table.Has slot region ∧ x ∈ part region) :
    ∑ x ∈ all, weight x =
      ∑ x ∈ rest, weight x + total (fun region => ∑ x ∈ part region, weight x) table := by
  induction table generalizing rest with
  | nil =>
      have heq : all = rest := by
        ext x
        rw [hall]
        constructor
        · rintro (hx | ⟨slot, region, hhas, -⟩)
          · exact hx
          · exact absurd hhas not_has_nil
        · exact Or.inl
      rw [heq]
      rfl
  | cons content table ih =>
      have hapart' (i j : ℕ) (a b : Region) (ha : Has table i a) (hb : Has table j b)
          (hne : i ≠ j) : Disjoint (part a) (part b) :=
        hapart (i + 1) (j + 1) a b (has_cons_succ_iff.2 ha) (has_cons_succ_iff.2 hb)
          fun heq => hne (Nat.succ_injective heq)
      have hrest' (slot : ℕ) (region : Region) (hhas : Has table slot region) :
          Disjoint rest (part region) :=
        hrest (slot + 1) region (has_cons_succ_iff.2 hhas)
      cases content with
      | none =>
          have hmem (x : α) : x ∈ all ↔ x ∈ rest ∨
              ∃ slot region, Has table slot region ∧ x ∈ part region := by
            rw [hall, exists_has_cons_iff]
            simp
          rw [ih rest hapart' hrest' hmem]
          simp [total]
      | some first =>
          have hfirst : Has (some first :: table) 0 first := has_cons_zero_iff.2 rfl
          have hunion := Finset.sum_union (f := weight) (hrest 0 first hfirst)
          have hrest_first (slot : ℕ) (region : Region) (hhas : Has table slot region) :
              Disjoint (rest ∪ part first) (part region) := by
            rw [Finset.disjoint_union_left]
            exact ⟨hrest' slot region hhas, hapart 0 (slot + 1) first region hfirst
              (has_cons_succ_iff.2 hhas) (Nat.succ_ne_zero slot).symm⟩
          have hmem (x : α) : x ∈ all ↔ x ∈ rest ∪ part first ∨
              ∃ slot region, Has table slot region ∧ x ∈ part region := by
            rw [hall, exists_has_cons_iff, Finset.mem_union, or_assoc]
            simp
          have hsum := ih (rest ∪ part first) hapart' hrest_first hmem
          rw [hsum, hunion]
          simp only [total, List.map_cons, List.sum_cons, Option.elim_some]
          omega

theorem card_eq_total
    {α : Type} [DecidableEq α] (part : Region → Finset α) {all : Finset α} (rest : Finset α)
    (hapart : ∀ i j a b, table.Has i a → table.Has j b → i ≠ j → Disjoint (part a) (part b))
    (hrest : ∀ slot region, table.Has slot region → Disjoint rest (part region))
    (hall : ∀ x, x ∈ all ↔ x ∈ rest ∨ ∃ slot region, table.Has slot region ∧ x ∈ part region) :
    all.card = rest.card + total (fun region => (part region).card) table := by
  simpa only [Finset.card_eq_sum_ones] using
    sum_eq_total part (fun _ => 1) rest hapart hrest hall

end RegionTable

/-! ## Regions that fit in memory -/

namespace Region

def Contains (region : Region) (pa : PhysAddr) : Prop :=
  region.start ≤ pa.val.toNat ∧ pa.val.toNat < region.stop

instance (region : Region) (pa : PhysAddr) : Decidable (region.Contains pa) :=
  inferInstanceAs (Decidable (_ ∧ _))

/-- A region that lies in memory and is known to hold no more than it can. -/
structure Valid (region : Region) : Prop extends region.Addressable where
  room : region.reserved + region.used ≤ region.units

theorem Valid.recount
    {region region' : Region} (h : region.Valid) (hbase : region'.base = region.base)
    (hframes : region'.frames = region.frames)
    (hroom : region.reserved + region'.used ≤ region.units) : region'.Valid := by
  obtain ⟨⟨hpos, haligned, hstop⟩, -⟩ := h
  obtain ⟨base, frames, used⟩ := region
  obtain ⟨base', frames', used'⟩ := region'
  cases hbase
  cases hframes
  exact ⟨⟨hpos, haligned, hstop⟩, hroom⟩

theorem Valid.mul_used {region : Region} (h : region.Valid) :
    Word.mul region.used Parameters.unitBytes = .ok (16 * region.used) := by
  have hstop := h.stop_lt
  have hroom := h.room
  have hsize : UInt64.size = 18446744073709551616 := rfl
  rw [stop] at hstop
  rw [reserved_eq, units_eq] at hroom
  rw [Word.mul_eq_ok_iff, unitBytes_eq, Word.count_eq]
  omega

/-- A region that may be tried for a block, and has room for it. -/
structure Admits (region : Region) (m : Memory) (units align : ℕ) : Prop where
  room : region.reserved + region.used + units ≤ region.units
  fits : ∃ t, region.Fits m units align t

theorem contains_of_unitStart
    {region : Region} {pa : PhysAddr} {i : ℕ} (hi : i < region.units)
    (hpa : pa.val.toNat = region.unitStart i) : region.Contains pa := by
  rw [Contains, hpa]
  exact region.unitStart_between hi

end Region

/-! ## Searching the table -/

namespace Arena

open RegionTable

variable {map : DirectMap}

/-- An edit of memory that places a block in the first region that admits it. -/
structure PlacedInTable
    (table : RegionTable) (m m' : Memory) (units align slot : ℕ) (region : Region) (first : ℕ) :
    Prop where
  has : table.Has slot region
  before : ∀ j other, j < slot → table.Has j other → ¬ other.Admits m units align
  room : region.reserved + region.used + units ≤ region.units
  placement : region.Placement m m' units align first

/-- The search for room ends in the first region that admits the block. -/
theorem perform_placeInTable_cases
    {units align : ℕ} (hreq : Region.Request units align) (table : RegionTable)
    (hvalid : ∀ slot region, table.Has slot region → region.Valid)
    (hvisible : ∀ slot region, table.Has slot region → region.Visible map) (m : Memory) :
    (∃ slot region first m', PlacedInTable table m m' units align slot region first ∧
      (placeInTable map units align table).perform m =
        (.ok (some (region.unitAddress first,
          table.set slot (some (region.withBlock units)))), m')) ∨
    ((∀ slot region, table.Has slot region → ¬ region.Admits m units align) ∧
      (placeInTable map units align table).perform m = (.ok none, m)) := by
  induction table with
  | nil => exact Or.inr ⟨fun slot region hhas => absurd hhas not_has_nil, rfl⟩
  | cons content rest ih =>
      have ih := ih (fun slot region hhas => hvalid (slot + 1) region (has_cons_succ_iff.2 hhas))
        fun slot region hhas => hvisible (slot + 1) region (has_cons_succ_iff.2 hhas)
      -- the rest of the table decides if this slot does not
      have hpass
          (hskip : (placeInTable map units align (content :: rest)).perform m =
            (((placeInTable map units align rest).perform m).1.map (behind content),
              ((placeInTable map units align rest).perform m).2))
          (hhead : ∀ region, content = some region → ¬ region.Admits m units align) :
          (∃ slot region first m',
            PlacedInTable (content :: rest) m m' units align slot region first ∧
            (placeInTable map units align (content :: rest)).perform m =
              (.ok (some (region.unitAddress first,
                (content :: rest).set slot (some (region.withBlock units)))), m')) ∨
          ((∀ slot region, Has (content :: rest) slot region → ¬ region.Admits m units align) ∧
            (placeInTable map units align (content :: rest)).perform m = (.ok none, m)) := by
        rcases ih with ⟨slot, region, first, m', hplaced, hrun⟩ | ⟨hnone, hrun⟩
        · refine Or.inl ⟨slot + 1, region, first, m', ⟨has_cons_succ_iff.2 hplaced.has, ?_,
            hplaced.room, hplaced.placement⟩, ?_⟩
          · intro j other hj hother
            rcases hother.cons_cases with ⟨-, hcontent⟩ | ⟨k, rfl, hother⟩
            · exact hhead other hcontent
            · exact hplaced.before k other (by omega) hother
          · rw [hskip, hrun]
            rfl
        · refine Or.inr ⟨?_, ?_⟩
          · intro j other hother
            rcases hother.cons_cases with ⟨-, hcontent⟩ | ⟨k, -, hother⟩
            · exact hhead other hcontent
            · exact hnone k other hother
          · rw [hskip, hrun]
            rfl
      cases content with
      | none =>
          apply hpass
          · exact Section.perform_bind_pure _ (fun found => by cases found <;> rfl) m
          · rintro region h
            cases h
      | some region =>
          have hregion := hvalid 0 region (has_cons_zero_iff.2 rfl)
          have hview := hvisible 0 region (has_cons_zero_iff.2 rfl)
          have hroom := hregion.room
          have hfree := region.freeUnits_eq hroom
          by_cases hfull : region.units - region.reserved - region.used < units
          · apply hpass
            · rw [placeInTable, Section.perform_lift_bind_ok _ _ hfree, if_pos hfull]
              refine (Section.perform_bind_ok (Section.perform_pure _ m)).trans ?_
              exact Section.perform_bind_pure _ (fun found => by cases found <;> rfl) m
            · rintro region' h ⟨hadmitted, -⟩
              cases h
              omega
          · have hheld : region.used + units < Word.count := by
              have hunits := hregion.units_le_maxUnits
              have hmax := Bitmap.maxUnits_add_maxUnits
              have hpos : 0 < Bitmap.maxUnits := by decide
              omega
            rcases Region.perform_place_cases hregion.toAddressable hview hreq hheld m with
              ⟨first, m', hplacement, hrun⟩ | ⟨hnone, hrun⟩
            · refine Or.inl ⟨0, region, first, m', ⟨has_cons_zero_iff.2 rfl, ?_, by omega,
                hplacement⟩, ?_⟩
              · intro j other hj
                omega
              · rw [placeInTable, Section.perform_lift_bind_ok _ _ hfree, if_neg hfull,
                  Section.perform_bind_ok hrun]
                rfl
            · apply hpass
              · rw [placeInTable, Section.perform_lift_bind_ok _ _ hfree, if_neg hfull]
                refine (Section.perform_bind_ok hrun).trans ?_
                exact Section.perform_bind_pure _ (fun found => by cases found <;> rfl) m
              · rintro region' h ⟨-, t, ht⟩
                cases h
                exact hnone t ht

/-- The search for a block by its address ends in the region that contains the
address, if one does. -/
theorem perform_removeFromTable_cases
    (pa : PhysAddr) (table : RegionTable)
    (hvalid : ∀ slot region, table.Has slot region → region.Valid)
    (hvisible : ∀ slot region, table.Has slot region → region.Visible map)
    (hone : ∀ i j a b, table.Has i a → table.Has j b → a.Contains pa → b.Contains pa → i = j)
    (m : Memory) :
    (∃ slot region first last m', table.Has slot region ∧
      pa.val.toNat = region.unitStart first ∧ region.Removal m m' first last ∧
      (removeFromTable map pa table).perform m =
        (if last - first ≤ region.used then
          .ok (some (last - first, table.set slot (some (region.withoutBlock (last - first)))))
        else .fault .subOverflow, m')) ∨
    ((∀ slot region first, table.Has slot region → pa.val.toNat = region.unitStart first →
        region.reserved ≤ first → first < region.units → region.headAt m first = false) ∧
      (removeFromTable map pa table).perform m = (.ok none, m)) := by
  induction table with
  | nil => exact Or.inr ⟨fun slot region _ hhas => absurd hhas not_has_nil, rfl⟩
  | cons content rest ih =>
      have ih := ih (fun slot region hhas => hvalid (slot + 1) region (has_cons_succ_iff.2 hhas))
        (fun slot region hhas => hvisible (slot + 1) region (has_cons_succ_iff.2 hhas))
        fun i j a b ha hb hina hinb => Nat.succ_injective
          (hone (i + 1) (j + 1) a b (has_cons_succ_iff.2 ha) (has_cons_succ_iff.2 hb) hina hinb)
      by_cases hin : ∃ region, content = some region ∧ region.Contains pa
      · obtain ⟨region, rfl, hin⟩ := hin
        have hregion := hvalid 0 region (has_cons_zero_iff.2 rfl)
        have hview := hvisible 0 region (has_cons_zero_iff.2 rfl)
        have hcontains : region.contains pa = .ok true := by
          rw [hregion.contains_eq]
          exact congrArg _ (decide_eq_true hin)
        rcases Region.perform_remove_cases hregion.toAddressable hview pa m with
          ⟨first, last, m', hpa, hremoval, hrun⟩ | ⟨hnone, hrun⟩
        · refine Or.inl ⟨0, region, first, last, m', has_cons_zero_iff.2 rfl, hpa, hremoval, ?_⟩
          rw [removeFromTable, Section.perform_lift_bind_ok _ _ hcontains, if_pos rfl]
          by_cases hheld : last - first ≤ region.used
          · rw [if_pos hheld] at hrun
            rw [if_pos hheld, Section.perform_bind_ok hrun]
            rfl
          · rw [if_neg hheld] at hrun
            rw [if_neg hheld]
            exact Section.perform_bind_error hrun
        · refine Or.inr ⟨fun slot other first hother hpa hbody hfirst => ?_, ?_⟩
          · have hslot := hone slot 0 other region hother (has_cons_zero_iff.2 rfl)
              (Region.contains_of_unitStart hfirst hpa) hin
            subst hslot
            cases has_cons_zero_iff.1 hother
            exact hnone first hpa hbody hfirst
          · rw [removeFromTable, Section.perform_lift_bind_ok _ _ hcontains, if_pos rfl,
              Section.perform_bind_ok hrun]
            rfl
      · have hskip : (removeFromTable map pa (content :: rest)).perform m =
            (((removeFromTable map pa rest).perform m).1.map (behind content),
              ((removeFromTable map pa rest).perform m).2) := by
          cases content with
          | none => exact Section.perform_bind_pure _ (fun found => by cases found <;> rfl) m
          | some region =>
              have hregion := hvalid 0 region (has_cons_zero_iff.2 rfl)
              have hcontains : region.contains pa = .ok false := by
                rw [hregion.contains_eq]
                exact congrArg _ (decide_eq_false fun hpa => hin ⟨region, rfl, hpa⟩)
              rw [removeFromTable, Section.perform_lift_bind_ok _ _ hcontains]
              exact Section.perform_bind_pure _ (fun found => by cases found <;> rfl) m
        rw [hskip]
        rcases ih with ⟨slot, region, first, last, m', hhas, hpa, hremoval, hrun⟩ | ⟨hnone, hrun⟩
        · refine Or.inl ⟨slot + 1, region, first, last, m', has_cons_succ_iff.2 hhas, hpa,
            hremoval, ?_⟩
          rw [hrun]
          split <;> rfl
        · refine Or.inr ⟨fun slot other first hother hpa hbody hfirst => ?_, ?_⟩
          · rcases hother.cons_cases with ⟨-, hcontent⟩ | ⟨k, -, hother⟩
            · exact absurd ⟨other, hcontent, Region.contains_of_unitStart hfirst hpa⟩ hin
            · exact hnone k other first hother hpa hbody hfirst
          · rw [hrun]
            rfl

end Arena

end KernelMemory
