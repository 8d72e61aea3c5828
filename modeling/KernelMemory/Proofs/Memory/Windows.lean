import KernelMemory.Memory
import KernelMemory.Proofs.Bytes.Bits

/-!
# Windows of memory

Reading and writing runs of bytes, in terms of the distance from the start of a
run.  A write shows its bytes inside its window and keeps every byte outside.
Distances wrap, so a window is well defined wherever it starts; a window that
does not wrap is an interval of addresses.
-/

namespace KernelMemory.Memory

/-- Bytes from one address up to another, modulo the address space. -/
def distance (pa qa : PhysAddr) : Nat := (qa.val - pa.val).toNat

/-- Bit `i` of the bytes from `pa` on. -/
def bit (m : Memory) (pa : PhysAddr) (i : Nat) : Bool :=
  (m.get (offset pa (i / 8))).toNat.testBit (i % 8)

/-! ## Distances -/

theorem distance_offset (pa : PhysAddr) {k : Nat} (hk : k < UInt64.size) :
    distance pa (offset pa k) = k := by
  simp only [distance, offset]
  rw [UInt64.add_comm, UInt64.add_sub_cancel, UInt64.toNat_ofNat_of_lt' hk]

theorem offset_distance (pa qa : PhysAddr) : offset pa (distance pa qa) = qa := by
  cases qa with
  | mk a =>
      simp only [offset, distance, UInt64.ofNat_toNat]
      rw [UInt64.add_comm, UInt64.sub_add_cancel]

theorem eq_offset_iff {pa qa : PhysAddr} {k : Nat} (hk : k < UInt64.size) :
    qa = offset pa k ↔ distance pa qa = k := by
  constructor
  · rintro rfl
    exact distance_offset pa hk
  · rintro rfl
    exact (offset_distance pa qa).symm

theorem offset_offset (pa : PhysAddr) (j k : Nat) :
    offset (offset pa j) k = offset pa (j + k) := by
  simp only [offset, UInt64.ofNat_add, UInt64.add_assoc]

theorem toNat_offset {pa : PhysAddr} {k : Nat} (h : pa.val.toNat + k < UInt64.size) :
    (offset pa k).val.toNat = pa.val.toNat + k := by
  have hk : k < UInt64.size := by omega
  have hsum : pa.val.toNat + k < 2 ^ 64 := h
  simp only [offset, UInt64.toNat_add, UInt64.toNat_ofNat_of_lt' hk]
  exact Nat.mod_eq_of_lt hsum

/-- A window that does not wrap is an interval. -/
theorem distance_lt_iff
    {pa qa : PhysAddr} {n : Nat} (h : pa.val.toNat + n ≤ UInt64.size) :
    distance pa qa < n ↔ pa.val.toNat ≤ qa.val.toNat ∧ qa.val.toNat < pa.val.toNat + n := by
  have hsize : UInt64.size = 2 ^ 64 := rfl
  have hpa := pa.val.toNat_lt
  have hqa := qa.val.toNat_lt
  rw [distance, UInt64.toNat_sub]
  omega

/-! ## Reading -/

theorem size_read (m : Memory) (pa : PhysAddr) (n : Nat) : (m.read pa n).size = n := by
  suffices h : ∀ (j : Nat) (start : ByteArray),
      (Nat.fold j (fun k _ bytes => bytes.push (m.get (offset pa k))) start).size =
        start.size + j by
    rw [read, h]
    exact Nat.zero_add n
  intro j start
  induction j with
  | zero => rfl
  | succ j ih =>
      rw [Nat.fold_succ, ByteArray.size_push, ih]
      rfl

theorem getElem?_data_read (m : Memory) (pa : PhysAddr) {n k : Nat} (hk : k < n) :
    (m.read pa n).data[k]? = some (m.get (offset pa k)) := by
  induction n with
  | zero => omega
  | succ n ih =>
      have hsize : (m.read pa n).data.size = n := m.size_read pa n
      have hsucc : (m.read pa (n + 1)).data = (m.read pa n).data.push (m.get (offset pa n)) := by
        rw [read, Nat.fold_succ, ByteArray.data_push]
        rfl
      rw [hsucc, Array.getElem?_push, hsize]
      by_cases hn : k = n
      · rw [if_pos hn, hn]
      · rw [if_neg hn]
        exact ih (by omega)

theorem getElem_read
    (m : Memory) (pa : PhysAddr) {n k : Nat} (h : k < (m.read pa n).size) :
    (m.read pa n)[k] = m.get (offset pa k) := by
  have hk : k < n := by rwa [size_read] at h
  have hdata : k < (m.read pa n).data.size := h
  have hread := m.getElem?_data_read pa hk
  rw [Array.getElem?_eq_getElem hdata] at hread
  rw [ByteArray.getElem_eq_getElem_data]
  exact Option.some.inj hread

theorem bit_read (m : Memory) (pa : PhysAddr) (n i : Nat) :
    Bytes.bit (m.read pa n) i = if i / 8 < n then m.bit pa i else false := by
  by_cases hi : i / 8 < n
  · have hread : i / 8 < (m.read pa n).size := by rwa [size_read]
    rw [if_pos hi, Bytes.bit_of_lt hread, getElem_read, bit]
  · have hread : (m.read pa n).size ≤ i / 8 := by rw [size_read]; omega
    rw [if_neg hi, Bytes.bit_of_le hread]

/-! ## Writing -/

/-- A run of single writes shows the last byte written at each place. -/
theorem get_fold_set
    (m : Memory) (pa qa : PhysAddr) (n : Nat) (hn : n ≤ UInt64.size)
    (value : (k : Nat) → k < n → UInt8) :
    (Nat.fold n (fun k hk m => m.set (offset pa k) (value k hk)) m).get qa =
      if h : distance pa qa < n then value (distance pa qa) h else m.get qa := by
  induction n with
  | zero => rfl
  | succ n ih =>
      have hlt : n < UInt64.size := hn
      rw [Nat.fold_succ, get_set, ih (Nat.le_of_lt hlt)]
      by_cases hlast : distance pa qa = n
      · have hqa : qa = offset pa n := (eq_offset_iff hlt).2 hlast
        rw [if_pos hqa, dif_pos (by omega)]
        congr 1
        exact hlast.symm
      · have hqa : qa ≠ offset pa n := fun h => hlast ((eq_offset_iff hlt).1 h)
        rw [if_neg hqa]
        by_cases hin : distance pa qa < n
        · rw [dif_pos hin, dif_pos (by omega)]
        · rw [dif_neg hin, dif_neg (by omega)]

theorem get_write
    (m : Memory) (pa qa : PhysAddr) {bytes : ByteArray} (hsize : bytes.size ≤ UInt64.size) :
    (m.write pa bytes).get qa =
      if h : distance pa qa < bytes.size then bytes[distance pa qa] else m.get qa :=
  m.get_fold_set pa qa bytes.size hsize fun k hk => bytes[k]

theorem get_write_of_le
    (m : Memory) {pa qa : PhysAddr} {bytes : ByteArray} (hsize : bytes.size ≤ UInt64.size)
    (h : bytes.size ≤ distance pa qa) :
    (m.write pa bytes).get qa = m.get qa := by
  rw [get_write m pa qa hsize, dif_neg (by omega)]

theorem get_fill
    (m : Memory) (pa qa : PhysAddr) {n : Nat} (hn : n ≤ UInt64.size) (byte : UInt8) :
    (m.fill pa n byte).get qa = if distance pa qa < n then byte else m.get qa := by
  rw [fill, get_fold_set m pa qa n hn, dite_eq_ite]

theorem get_fill_offset
    (m : Memory) (pa : PhysAddr) {n i : Nat} (hn : n < UInt64.size) (hi : i < n) (byte : UInt8) :
    (m.fill pa n byte).get (offset pa i) = byte := by
  rw [get_fill m pa _ (Nat.le_of_lt hn), distance_offset pa (by omega), if_pos hi]

/-- A copy shows the bytes of its source, as they were, inside its window. -/
theorem get_copy
    (m : Memory) (source target qa : PhysAddr) {n : Nat} (hn : n ≤ UInt64.size) :
    (m.copy source target n).get qa =
      if distance target qa < n then m.get (offset source (distance target qa))
      else m.get qa := by
  have hsize := m.size_read source n
  rw [copy, get_write m target qa (by rwa [hsize])]
  by_cases hqa : distance target qa < n
  · rw [if_pos hqa, dif_pos (by rwa [hsize]), getElem_read]
  · rw [if_neg hqa, dif_neg (by rwa [hsize])]

theorem get_copy_offset
    (m : Memory) (source target : PhysAddr) {n i : Nat} (hn : n < UInt64.size) (hi : i < n) :
    (m.copy source target n).get (offset target i) = m.get (offset source i) := by
  rw [get_copy m source target _ (Nat.le_of_lt hn), distance_offset target (by omega), if_pos hi]

theorem fold_set_get
    {m : Memory} {pa : PhysAddr} {n : Nat} {value : (k : Nat) → k < n → UInt8}
    (h : ∀ k hk, value k hk = m.get (offset pa k)) :
    Nat.fold n (fun k hk m => m.set (offset pa k) (value k hk)) m = m := by
  induction n with
  | zero => rfl
  | succ n ih => rw [Nat.fold_succ, ih fun k hk => h k (Nat.lt_succ_of_lt hk), h n, set_get]

/-- Writing what is there already changes nothing. -/
theorem write_of_get
    {m : Memory} {pa : PhysAddr} {bytes : ByteArray}
    (h : ∀ k (hk : k < bytes.size), bytes[k] = m.get (offset pa k)) :
    m.write pa bytes = m :=
  fold_set_get h

theorem bit_write
    (m : Memory) (pa : PhysAddr) {bytes : ByteArray} (hsize : bytes.size ≤ UInt64.size)
    {i : Nat} (hi : i / 8 < bytes.size) :
    (m.write pa bytes).bit pa i = Bytes.bit bytes i := by
  have hdist : distance pa (offset pa (i / 8)) = i / 8 := distance_offset pa (by omega)
  have hlt : distance pa (offset pa (i / 8)) < bytes.size := by rwa [hdist]
  rw [bit, get_write m pa _ hsize, dif_pos hlt, Bytes.bit_of_lt hi]
  simp only [hdist]

/-- Bits are equal where the bytes are. -/
theorem bit_congr
    {m m' : Memory} {pa : PhysAddr} {i : Nat}
    (h : m'.get (offset pa (i / 8)) = m.get (offset pa (i / 8))) :
    m'.bit pa i = m.bit pa i := by
  rw [bit, bit, h]

end KernelMemory.Memory
