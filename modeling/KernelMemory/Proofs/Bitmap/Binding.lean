import KernelMemory.Proofs.Bitmap.Vector

/-!
# Binding a bitmap to storage

The three ways to bind storage, which storage they accept, and what they make
of it.  The main statement is `unitList_refinement`: over less than `2 ^ 60`
bytes, a bitmap behaves as the list of its units from its construction on,
whatever the storage held and whatever is asked.
-/

namespace KernelMemory.Bitmap

/-- The ways to bind storage. -/
inductive Binding where
  | create (length : Int)
  | withUnits (length : Int) (units : UInt64)
  | attach (units : UInt64)

namespace Binding

def body : Binding → Section ByteArray Bitmap
  | .create length => Bitmap.create length
  | .withUnits length units => Bitmap.withUnits length units.toNat
  | .attach units => Bitmap.attach units.toNat

def units : Binding → ℕ
  | .create length => 8 * length.toNat
  | .withUnits _ units | .attach units => units.toNat

def cleared : Binding → ℕ
  | .create length | .withUnits length _ => length.toNat
  | .attach _ => 0

/-- Whether a binding accepts storage of so many bytes. -/
def Accepts (size : ℕ) : Binding → Prop
  | .create length => 0 < length ∧ length ≤ size
  | .withUnits length units =>
      0 < length ∧ length ≤ size ∧ 0 < units.toNat ∧ units.toNat ≤ 8 * length.toNat
  | .attach units => 0 < units.toNat ∧ units.toNat ≤ 8 * size

instance (size : ℕ) : DecidablePred (Accepts size)
  | .create _ => inferInstanceAs (Decidable (_ ∧ _))
  | .withUnits .. => inferInstanceAs (Decidable (_ ∧ _))
  | .attach _ => inferInstanceAs (Decidable (_ ∧ _))

/-- What a binding makes of storage that it accepts: the bits of the bytes that
it clears are clear, and all others are as they were. -/
structure Binds (binding : Binding) (storage : ByteArray) (map : Bitmap) : Prop where
  size : map.storage.size = storage.size
  units : map.units = binding.units
  bits : ∀ i, map.isSet i = if i / 8 < binding.cleared then false else Bytes.bit storage i

variable {binding : Binding} {storage : ByteArray} {map : Bitmap}

theorem boundBytes_of_lt {length : Int} (h : 0 < length) (hsize : length ≤ storage.size) :
    boundBytes storage length = .ok ⟨length.toNat, by omega⟩ := by
  rw [boundBytes, if_neg (by omega), dif_pos (by omega)]

theorem boundBytes_refuses {length : Int} (h : ¬ (0 < length ∧ length ≤ storage.size)) :
    ∃ why, boundBytes storage length = .refuse (.invalidArgument why) := by
  rw [boundBytes]
  split_ifs with hpos hsize
  · exact ⟨_, rfl⟩
  · omega
  · exact ⟨_, rfl⟩

theorem ceilDiv_eight_le_iff {n bytes : ℕ} : ceilDiv n 8 ≤ bytes ↔ n ≤ 8 * bytes := by
  unfold ceilDiv
  omega

theorem exists_binds_withUnits
    {length : Int} {n : ℕ} (hlength : 0 < length) (hsize : length ≤ storage.size) (hn : 0 < n)
    (hfit : n ≤ 8 * length.toNat) (hunits : binding.units = n)
    (hcleared : binding.cleared = length.toNat) :
    ∃ map, (Bitmap.withUnits length n).perform storage = (.ok map, map.storage) ∧
      Binds binding storage map := by
  lift length to ℕ using le_of_lt hlength
  rw [Int.toNat_natCast] at hfit hcleared
  obtain ⟨map, hrun, hmap, hstorage⟩ :=
    exists_withUnits (Int.natCast_pos.1 hlength) (Int.ofNat_le.1 hsize) hn
      (ceilDiv_eight_le_iff.2 hfit)
  refine ⟨map, hrun, ?_, hmap.trans hunits.symm, fun i => ?_⟩
  · rw [hstorage, size_clearFront (Int.ofNat_le.1 hsize)]
  · rw [isSet, hstorage, bit_clearFront, hcleared]

theorem exists_binds (hsize : storage.size < 2 ^ 60) (h : binding.Accepts storage.size) :
    ∃ map, binding.body.perform storage = (.ok map, map.storage) ∧
      Binds binding storage map := by
  cases binding with
  | create length =>
      obtain ⟨hpos, hle⟩ := h
      have hmul : Word.mul length.toNat 8 = .ok (8 * length.toNat) := by
        rw [Word.mul_eq_ok_iff, Word.count_eq]
        omega
      rw [body, Bitmap.create, Section.perform_get_bind,
        Section.perform_lift_bind_ok _ _ (boundBytes_of_lt hpos hle),
        Section.perform_lift_bind_ok _ _ hmul]
      exact exists_binds_withUnits hpos hle (by omega) (le_refl _) rfl rfl
  | withUnits length units =>
      obtain ⟨hpos, hle, hunits, hfit⟩ := h
      exact exists_binds_withUnits hpos hle hunits hfit rfl rfl
  | attach units =>
      obtain ⟨hpos, hle⟩ := h
      obtain ⟨map, hrun, hmap, hstorage⟩ :=
        exists_attach storage hpos (ceilDiv_eight_le_iff.2 hle)
      exact ⟨map, hrun, by rw [hstorage], hmap, fun i => by rw [isSet, hstorage]; rfl⟩

/-- Other storage is rejected before anything is written. -/
theorem body_refuses (h : ¬ binding.Accepts storage.size) :
    ∃ why, binding.body.perform storage = (.refuse (.invalidArgument why), storage) := by
  cases binding with
  | create length =>
      obtain ⟨why, hbound⟩ := boundBytes_refuses h
      refine ⟨why, ?_⟩
      rw [body, Bitmap.create, Section.perform_get_bind, hbound]
      rfl
  | withUnits length units =>
      by_cases hbytes : 0 < length ∧ length ≤ storage.size
      · have hunits : ¬ (units.toNat ≠ 0 ∧ ceilDiv units.toNat 8 ≤ length.toNat) := by
          rw [ceilDiv_eight_le_iff]
          exact fun hfit => h ⟨hbytes.1, hbytes.2, Nat.pos_of_ne_zero hfit.1, hfit.2⟩
        refine ⟨.unitsDoNotFit, ?_⟩
        rw [body, Bitmap.withUnits, Section.perform_get_bind,
          Section.perform_lift_bind_ok _ _ (boundBytes_of_lt hbytes.1 hbytes.2)]
        simp only [dif_neg hunits]
        rfl
      · obtain ⟨why, hbound⟩ := boundBytes_refuses hbytes
        refine ⟨why, ?_⟩
        rw [body, Bitmap.withUnits, Section.perform_get_bind, hbound]
        rfl
  | attach units =>
      have hunits : ¬ (units.toNat ≠ 0 ∧ ceilDiv units.toNat 8 ≤ storage.size) := by
        rw [ceilDiv_eight_le_iff]
        exact fun hfit => h ⟨Nat.pos_of_ne_zero hfit.1, hfit.2⟩
      refine ⟨.unitsDoNotFit, ?_⟩
      rw [body, Bitmap.attach, Section.perform_get_bind, dif_neg hunits]
      rfl

/-- A bitmap over less than `2 ^ 60` bytes has few enough units for every index
to be computed. -/
theorem units_le_maxUnits (map : Bitmap) (h : map.storage.size < 2 ^ 60) :
    map.units ≤ maxUnits := by
  have := map.units_le
  have := map.length_le
  have : maxUnits = 8 * 2 ^ 60 := rfl
  omega

end Binding

open Binding

/-- Storage is rejected and keeps every byte, or it is bound and from then on
behaves as a list: every run of requests is answered as the list answers it,
the bits behind the tracked ones stay as the binding left them, and so on for
whatever is asked next. -/
theorem unitList_refinement
    {storage : ByteArray} (hsize : storage.size < 2 ^ 60) (binding : Binding) :
    (¬ binding.Accepts storage.size ∧
      ∃ why, binding.body.perform storage = (.refuse (.invalidArgument why), storage)) ∨
    (binding.Accepts storage.size ∧
      ∃ map, binding.body.perform storage = (.ok map, map.storage) ∧
        binding.Binds storage map ∧
        ∀ requests, ∃ replies map',
          serveAll requests map = (replies, map') ∧
          map.entries.serveAll requests = (replies, map'.entries) ∧
          SameShape map' map ∧ (∀ i, map.units ≤ i → map'.isSet i = map.isSet i) ∧
          ∀ request, ∃ answer map'', Served map' request answer map'') := by
  by_cases haccepts : binding.Accepts storage.size
  · refine Or.inr ⟨haccepts, ?_⟩
    obtain ⟨map, hbind, hbinds⟩ := exists_binds hsize haccepts
    have hunits : map.units ≤ maxUnits := units_le_maxUnits map (hbinds.size.trans_lt hsize)
    refine ⟨map, hbind, hbinds, fun requests => ?_⟩
    obtain ⟨replies, map', hall, hlist, hshape, huntracked⟩ := exists_serveAll hunits requests
    refine ⟨replies, map', hall, hlist, hshape, huntracked, fun request => ?_⟩
    exact exists_served (hshape.units.trans_le hunits) request
  · exact Or.inl ⟨haccepts, body_refuses haccepts⟩

/-- Eleven units over storage that held something: padding and the byte behind it
are set.  The list grants two runs, refuses a range that reaches into the
padding, and counts what is left. -/
theorem exists_unitList_bitmap :
    ∃ map map' : Bitmap,
      (Binding.attach 11).body.perform ⟨#[0x83, 0xFC, 0xFF]⟩ = (.ok map, map.storage) ∧
      serveAll [.alloc 3, .setRange 9 3 true, .allocAligned 2 8, .countZeros] map =
        ([⟨.alloc 3, .ok (2 : ℕ)⟩, ⟨.setRange 9 3 true, .refuse (.outOfRange 11 11)⟩,
          ⟨.allocAligned 2 8, .ok (8 : ℕ)⟩, ⟨.countZeros, .ok (2 : ℕ)⟩], map') ∧
      map'.entries = [true, true, true, true, true, false, false, true, true, true, true] ∧
      ∀ i, 11 ≤ i → map'.isSet i = Bytes.bit ⟨#[0x83, 0xFC, 0xFF]⟩ i := by
  have hsize : ByteArray.size ⟨#[0x83, 0xFC, 0xFF]⟩ < 2 ^ 60 := by decide
  rcases unitList_refinement hsize (.attach 11) with ⟨hrejects, -⟩ | ⟨-, map, hbind, hbinds, h⟩
  · exact absurd (by decide) hrejects
  obtain ⟨replies, map', hall, hlist, hshape, huntracked, -⟩ :=
    h [.alloc 3, .setRange 9 3 true, .allocAligned 2 8, .countZeros]
  have hentries : map.entries =
      [true, true, false, false, false, false, false, true, false, false, true] := by
    have hbits : ∀ i < 11, [true, true, false, false, false, false, false, true, false, false,
        true][i]? = some (Bytes.bit ⟨#[0x83, 0xFC, 0xFF]⟩ i) := by decide
    refine entries_eq_of hbinds.units.symm fun i hi => ?_
    rw [hbinds.units] at hi
    rw [hbits i hi, hbinds.bits]
    rfl
  rw [hentries] at hlist
  obtain ⟨hreplies, hentries'⟩ := Prod.mk.inj hlist
  refine ⟨map, map', hbind, ?_, hentries'.symm, fun i hi => ?_⟩
  · rw [hall, ← hreplies]
    rfl
  · rw [huntracked i (hbinds.units.trans_le hi), hbinds.bits]
    rfl

end KernelMemory.Bitmap
