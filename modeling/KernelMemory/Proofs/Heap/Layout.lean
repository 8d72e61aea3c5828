import KernelMemory.Heap.Region
import KernelMemory.Proofs.FramePool.Frames
import KernelMemory.Proofs.Memory.Windows
import Mathlib.Order.Bounds.Basic
import Mathlib.Tactic.IntervalCases

/-!
# The layout of a region

Where a region and its units lie, as natural numbers.  A frame has 256 units, of
which the two maps take four, so every size here is linear in the number of
frames.  The main statements are the exact domain of each conversion between
addresses and units, and `framesFor_cases`: the size of a new region is the
least with room for the request, and at most one frame above its first guess.
-/

namespace KernelMemory.Region

open Parameters (unitBytes)

theorem unitBytes_eq : unitBytes = 16 := rfl

variable (region : Region)

theorem units_eq : region.units = 256 * region.frames :=
  Nat.mul_comm region.frames 256

theorem mapBytes_eq : region.mapBytes = 32 * region.frames := by
  rw [mapBytes, units_eq, ceilDiv]
  omega

theorem reserved_eq : region.reserved = 4 * region.frames := by
  rw [reserved, mapBytes_eq, unitBytes_eq, ceilDiv]
  omega

def start : ℕ := region.base.val.toNat

def stop : ℕ := region.start + 4096 * region.frames

def unitStart (i : ℕ) : ℕ := region.start + 16 * i

/-- The first byte behind the maps of a region. -/
def bodyStart : ℕ := region.unitStart region.reserved

def unitAddress (i : ℕ) : PhysAddr := Memory.offset region.base (16 * i)

/-- A run of whole frames that ends below the last address. -/
structure Addressable : Prop where
  frames_pos : 0 < region.frames
  aligned : 4096 ∣ region.start
  stop_lt : region.stop < UInt64.size

theorem unitStart_units : region.unitStart region.units = region.stop := by
  rw [unitStart, stop, units_eq]
  omega

theorem unitStart_between {i : ℕ} (hi : i < region.units) :
    region.start ≤ region.unitStart i ∧ region.unitStart i < region.stop := by
  rw [← unitStart_units]
  simp only [unitStart]
  omega

theorem bodyStart_eq : region.bodyStart = region.start + 64 * region.frames := by
  rw [bodyStart, unitStart, reserved_eq]
  omega

theorem reserved_lt_units (h : 0 < region.frames) : region.reserved < region.units := by
  rw [reserved_eq, units_eq]
  omega

theorem freeUnits_eq (h : region.reserved + region.used ≤ region.units) :
    region.freeUnits = .ok (region.units - region.reserved - region.used) := by
  have hreserved : Word.sub region.units region.reserved =
      .ok (region.units - region.reserved) := by
    rw [Word.sub_eq_ok_iff]
    omega
  have hused : Word.sub (region.units - region.reserved) region.used =
      .ok (region.units - region.reserved - region.used) := by
    rw [Word.sub_eq_ok_iff]
    omega
  simp [freeUnits, hreserved, hused, bind, Except.bind]

theorem create_eq (base : PhysAddr) {frames : ℕ} (h : 256 * frames < Word.count) :
    create base frames = .ok ⟨base, frames, 0⟩ := by
  have hmul : Word.mul frames Parameters.unitsPerFrame = .ok (256 * frames) := by
    rw [Word.mul_eq_ok_iff]
    exact ⟨by rwa [Nat.mul_comm] at h, Nat.mul_comm _ _⟩
  simp [create, hmul, bind, Except.bind, pure, Except.pure]

/-! ## Conversion between addresses and units -/

namespace Addressable

variable {region} (h : region.Addressable)
include h

theorem units_le_maxUnits : region.units ≤ Bitmap.maxUnits := by
  have hstop := h.stop_lt
  have hsize : UInt64.size = 18446744073709551616 := rfl
  have hmax : Bitmap.maxUnits = 9223372036854775808 := rfl
  rw [stop] at hstop
  rw [units_eq]
  omega

theorem mul_units : Word.mul region.units unitBytes = .ok (4096 * region.frames) := by
  have hstop := h.stop_lt
  have hsize : UInt64.size = 18446744073709551616 := rfl
  rw [stop] at hstop
  rw [Word.mul_eq_ok_iff, units_eq, unitBytes_eq, Word.count_eq]
  omega

theorem capacity_eq : region.capacity = .ok (16 * (region.units - region.reserved)) := by
  have hstop := h.stop_lt
  have hsize : UInt64.size = 18446744073709551616 := rfl
  rw [stop] at hstop
  have hreserved : Word.sub region.units region.reserved =
      .ok (region.units - region.reserved) := by
    rw [Word.sub_eq_ok_iff]
    exact ⟨Nat.le_of_lt (region.reserved_lt_units h.frames_pos), rfl⟩
  have hmul : Word.mul (region.units - region.reserved) unitBytes =
      .ok (16 * (region.units - region.reserved)) := by
    rw [Word.mul_eq_ok_iff, unitBytes_eq, Word.count_eq]
    refine ⟨?_, Nat.mul_comm _ _⟩
    rw [units_eq, reserved_eq]
    omega
  simp [capacity, hreserved, hmul, bind, Except.bind]

theorem unitStart_lt {i : ℕ} (hi : i ≤ region.units) : region.unitStart i < UInt64.size := by
  have hstop := h.stop_lt
  rw [stop] at hstop
  rw [units_eq] at hi
  rw [unitStart]
  omega

theorem toNat_unitAddress {i : ℕ} (hi : i ≤ region.units) :
    (region.unitAddress i).val.toNat = region.unitStart i :=
  Memory.toNat_offset (h.unitStart_lt hi)

theorem addressOf_eq {i : ℕ} (hi : i < region.units) :
    region.addressOf i = .ok (region.unitAddress i) := by
  have hlt := h.unitStart_lt (Nat.le_of_lt hi)
  have hsize : UInt64.size = 18446744073709551616 := rfl
  rw [unitStart, start] at hlt
  have hmul : Word.mul i unitBytes = .ok (16 * i) := by
    rw [Word.mul_eq_ok_iff, unitBytes_eq, Word.count_eq]
    omega
  have hadd : Word.add region.base.val.toNat (16 * i) =
      .ok (region.base.val.toNat + 16 * i) := by
    rw [Word.add_eq_ok_iff, Word.count_eq]
    omega
  have haddress : (⟨UInt64.ofNat (region.base.val.toNat + 16 * i)⟩ : PhysAddr) =
      region.unitAddress i := by
    rw [unitAddress, Memory.offset, UInt64.ofNat_add, UInt64.ofNat_toNat]
  rw [← haddress]
  simp only [addressOf, hmul, hadd, bind, Except.bind, pure, Except.pure]

theorem unitOf_cases (pa : PhysAddr) :
    (∃ i, i < region.units ∧ pa.val.toNat = region.unitStart i ∧
      region.unitOf pa = .ok (some i)) ∨
    ((∀ i, i < region.units → pa.val.toNat ≠ region.unitStart i) ∧
      region.unitOf pa = .ok none) := by
  have hunits := region.units_eq
  unfold unitOf
  cases hoffset : pa.offsetFrom? region.base with
  | none =>
      refine Or.inr ⟨?_, rfl⟩
      intro i hi hpa
      have hlt := h.unitStart_lt (Nat.le_of_lt hi)
      rw [unitStart, start] at hlt hpa
      have hsome : pa.offsetFrom? region.base = some (UInt64.ofNat (16 * i)) := by
        rw [Address.offsetFrom?_eq_some_iff, UInt64.toNat_ofNat_of_lt' (by omega)]
        exact hpa
      rw [hoffset] at hsome
      cases hsome
  | some offset =>
      rw [Address.offsetFrom?_eq_some_iff] at hoffset
      simp only [h.mul_units, bind, Except.bind]
      by_cases hbad : 4096 * region.frames ≤ offset.toNat ∨ offset.toNat % unitBytes ≠ 0
      · rw [if_pos hbad]
        refine Or.inr ⟨?_, rfl⟩
        intro i hi hpa
        rw [unitStart, start] at hpa
        rw [unitBytes_eq] at hbad
        omega
      · rw [if_neg hbad]
        rw [unitBytes_eq] at hbad
        refine Or.inl ⟨offset.toNat / 16, by omega, ?_, rfl⟩
        rw [unitStart, start]
        omega

theorem contains_eq (pa : PhysAddr) :
    region.contains pa =
      .ok (decide (region.start ≤ pa.val.toNat ∧ pa.val.toNat < region.stop)) := by
  unfold contains
  cases hoffset : pa.offsetFrom? region.base with
  | none =>
      have hout : ¬ (region.start ≤ pa.val.toNat ∧ pa.val.toNat < region.stop) := by
        rintro ⟨hlow, -⟩
        rw [start] at hlow
        have hsome : pa.offsetFrom? region.base = some (pa.val - region.base.val) :=
          if_pos (UInt64.le_iff_toNat_le.2 hlow)
        rw [hoffset] at hsome
        cases hsome
      rw [decide_eq_false hout]
      rfl
  | some offset =>
      rw [Address.offsetFrom?_eq_some_iff] at hoffset
      simp only [h.mul_units, bind, Except.bind, pure, Except.pure]
      congr 2
      rw [stop, start]
      exact propext ⟨fun hlt => by omega, fun hin => by omega⟩

end Addressable

/-! ## The size of a new region -/

/-- Whether a region of `frames` frames without blocks has room for `units`
units at a multiple of `alignUnits`. -/
def HasRoom (units alignUnits frames : ℕ) : Prop :=
  ceilDiv (4 * frames) alignUnits * alignUnits + units ≤ 256 * frames

instance (units alignUnits frames : ℕ) : Decidable (HasRoom units alignUnits frames) :=
  inferInstanceAs (Decidable (_ ≤ _))

/-- What holds of every request that reaches a region. -/
structure Request (units alignUnits : ℕ) : Prop where
  units_pos : 0 < units
  units_le : units ≤ 1152921504606846976
  align_pow : alignUnits.isPowerOfTwo
  align_le : alignUnits ≤ 256

namespace Request

variable {units alignUnits : ℕ} (h : Request units alignUnits)
include h

theorem align_pos : 0 < alignUnits := Nat.pos_of_isPowerOfTwo h.align_pow

theorem align_le_maxUnits : alignUnits ≤ Bitmap.maxUnits := by
  have hle := h.align_le
  have hmax : Bitmap.maxUnits = 9223372036854775808 := rfl
  omega

/-- Rounding the maps up wastes less than one frame of units, because maps and
alignments are multiples of each other's least parts. -/
theorem ceilDiv_mul_add_four_le (frames : ℕ) :
    ceilDiv (4 * frames) alignUnits * alignUnits + 4 ≤ 4 * frames + 256 := by
  have hpos := h.align_pos
  have hlt := ceilDiv_mul_lt (4 * frames) hpos
  have hle := h.align_le
  obtain ⟨k, rfl⟩ := h.align_pow
  have hk : k ≤ 8 := by
    by_contra hk
    have : 2 ^ 9 ≤ 2 ^ k := Nat.pow_le_pow_right (by decide) (by omega)
    omega
  generalize ceilDiv (4 * frames) (2 ^ k) = q at hlt
  interval_cases k <;> omega

theorem fitsFresh_eq (region : Region) (hframes : region.frames ≤ 1152921504606846976) :
    region.fitsFresh units alignUnits =
      .ok (decide (HasRoom units alignUnits region.frames)) := by
  have hunits := h.units_le
  have hle := h.align_le
  have hround := h.ceilDiv_mul_add_four_le region.frames
  have hfirst : Word.nextMultipleOf region.reserved alignUnits =
      .ok (ceilDiv (4 * region.frames) alignUnits * alignUnits) := by
    rw [reserved_eq]
    apply Word.nextMultipleOf_eq h.align_pos
    rw [Word.count_eq]
    omega
  have hstop : Word.add (ceilDiv (4 * region.frames) alignUnits * alignUnits) units =
      .ok (ceilDiv (4 * region.frames) alignUnits * alignUnits + units) := by
    rw [Word.add_eq_ok_iff, Word.count_eq]
    omega
  simp only [fitsFresh, hfirst, hstop, units_eq, bind, Except.bind, pure, Except.pure]
  rfl

/-- One more frame than the units alone need always has room. -/
theorem hasRoom_succ (frames : ℕ) (hframes : units ≤ 252 * frames) :
    HasRoom units alignUnits (frames + 1) := by
  have hround := h.ceilDiv_mul_add_four_le (frames + 1)
  rw [HasRoom]
  omega

theorem le_of_hasRoom {frames : ℕ} (hroom : HasRoom units alignUnits frames) :
    units ≤ 252 * frames := by
  have hround := le_ceilDiv_mul (4 * frames) h.align_pos
  rw [HasRoom] at hroom
  omega

theorem leastFrames_of_hasRoom
    {frames : ℕ} (hframes : frames ≤ 36028797018963968) (hroom : HasRoom units alignUnits frames) :
    leastFrames units alignUnits frames = .ok frames := by
  have hcreate : create .zero frames = .ok ⟨.zero, frames, 0⟩ :=
    create_eq .zero (by rw [Word.count_eq]; omega)
  have hfits := h.fitsFresh_eq ⟨.zero, frames, 0⟩ (by simp only; omega)
  rw [leastFrames]
  simp [hcreate, hfits, hroom, bind, Except.bind, pure, Except.pure]

theorem leastFrames_of_not
    {frames : ℕ} (hframes : frames ≤ 36028797018963968)
    (hroom : ¬ HasRoom units alignUnits frames) :
    leastFrames units alignUnits frames = leastFrames units alignUnits (frames + 1) := by
  have hcreate : create .zero frames = .ok ⟨.zero, frames, 0⟩ :=
    create_eq .zero (by rw [Word.count_eq]; omega)
  have hnext : frames + 1 < Word.count := by
    rw [Word.count_eq]
    omega
  have hfits := h.fitsFresh_eq ⟨.zero, frames, 0⟩ (by simp only; omega)
  rw [leastFrames]
  simp [hcreate, hfits, hroom, hnext, bind, Except.bind]

/-- The size of a new region is the least with room, from sixteen frames on. -/
theorem framesFor_cases :
    ∃ frames, framesFor units alignUnits = .ok frames ∧
      IsLeast {n | 16 ≤ n ∧ HasRoom units alignUnits n} frames ∧
      frames ≤ 9007199254740992 := by
  have hunits := h.units_le
  have hguess : framesFor units alignUnits =
      leastFrames units alignUnits (max (ceilDiv units 252) 16) := rfl
  have hlow := le_ceilDiv_mul units (d := 252) (by decide)
  have hhigh := ceilDiv_mul_lt units (d := 252) (by decide)
  have hleast {n : ℕ} (hn : 16 ≤ n) (hroom : HasRoom units alignUnits n) :
      max (ceilDiv units 252) 16 ≤ n := by
    have := h.le_of_hasRoom hroom
    omega
  rw [hguess]
  generalize hfirst : max (ceilDiv units 252) 16 = first at hleast ⊢
  by_cases hroom : HasRoom units alignUnits first
  · refine ⟨first, h.leastFrames_of_hasRoom (by omega) hroom, ⟨⟨by omega, hroom⟩, ?_⟩, by omega⟩
    intro n hn
    exact hleast hn.1 hn.2
  · have hroom' := h.hasRoom_succ first (by omega)
    refine ⟨first + 1, ?_, ⟨⟨by omega, hroom'⟩, ?_⟩, by omega⟩
    · rw [h.leastFrames_of_not (by omega) hroom]
      exact h.leastFrames_of_hasRoom (by omega) hroom'
    · intro n hn
      have hle := hleast hn.1 hn.2
      have hne : n ≠ first := fun heq => hroom (heq ▸ hn.2)
      omega

theorem isLeast_of_framesFor
    {count : ℕ} (hcount : framesFor units alignUnits = .ok count) :
    IsLeast {n | 16 ≤ n ∧ HasRoom units alignUnits n} count := by
  obtain ⟨frames, hframes, hleast, -⟩ := h.framesFor_cases
  rw [hcount] at hframes
  cases hframes
  exact hleast

theorem framesFor_pos {count : ℕ} (hcount : framesFor units alignUnits = .ok count) :
    0 < count := by
  have hmin := (h.isLeast_of_framesFor hcount).1.1
  omega

end Request

end KernelMemory.Region
