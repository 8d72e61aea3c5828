import KernelMemory.Address.Basic
import KernelMemory.Bytes

/-!
# Physical memory

Every physical address holds a byte.  The bytes from `origin` on are kept in an
array; all others are zero until they are written.  Addresses wrap, so the
memory is a function on all 64-bit addresses, and `get_set` says what one write
does to that function.
-/

namespace KernelMemory

/-- Physical memory, of which the bytes from `origin` on are stored. -/
structure Memory where
  origin : PhysAddr
  bytes : ByteArray

namespace Memory

/-- Memory that holds `n` bytes of value `byte` from `origin` on. -/
def filled (origin : PhysAddr) (n : Nat) (byte : UInt8) : Memory :=
  ⟨origin, Bytes.replicate n byte⟩

/-- The place of an address, counted from the origin. -/
def index (m : Memory) (pa : PhysAddr) : Nat := (pa.val - m.origin.val).toNat

def get (m : Memory) (pa : PhysAddr) : UInt8 :=
  if h : m.index pa < m.bytes.size then m.bytes[m.index pa] else 0

/-- The memory with `byte` stored at an address, as it was if it holds that
byte already. -/
def set (m : Memory) (pa : PhysAddr) (byte : UInt8) : Memory :=
  if m.get pa = byte then
    m
  else if h : m.index pa < m.bytes.size then
    { m with bytes := m.bytes.set (m.index pa) byte h }
  else
    { m with bytes := (m.bytes ++ Bytes.replicate (m.index pa - m.bytes.size) 0).push byte }

/-- The address `k` bytes behind `pa`. -/
def offset (pa : PhysAddr) (k : Nat) : PhysAddr := ⟨pa.val + UInt64.ofNat k⟩

/-- The `n` bytes from `pa` on. -/
def read (m : Memory) (pa : PhysAddr) (n : Nat) : ByteArray :=
  Nat.fold n (fun k _ bytes => bytes.push (m.get (offset pa k))) (ByteArray.emptyWithCapacity n)

/-- The memory with `bytes` stored from `pa` on. -/
def write (m : Memory) (pa : PhysAddr) (bytes : ByteArray) : Memory :=
  Nat.fold bytes.size (fun k _ m => m.set (offset pa k) bytes[k]) m

/-- The memory with `n` copies of `byte` stored from `pa` on. -/
def fill (m : Memory) (pa : PhysAddr) (n : Nat) (byte : UInt8) : Memory :=
  Nat.fold n (fun k _ m => m.set (offset pa k) byte) m

/-- The memory with the `n` bytes from `source` on copied to `target`. -/
def copy (m : Memory) (source target : PhysAddr) (n : Nat) : Memory :=
  m.write target (m.read source n)

theorem set_get (m : Memory) (pa : PhysAddr) : m.set pa (m.get pa) = m :=
  if_pos rfl

theorem set_origin (m : Memory) (pa : PhysAddr) (byte : UInt8) :
    (m.set pa byte).origin = m.origin := by
  unfold set
  split
  · rfl
  · split <;> rfl

theorem index_injective
    (m : Memory) {pa qa : PhysAddr}
    (h : m.index pa = m.index qa) :
    pa = qa := by
  cases pa with
  | mk a =>
    cases qa with
    | mk b =>
      simp only [index, UInt64.toNat_inj] at h
      congr 1
      have hsum := congrArg (· + m.origin.val) h
      simpa [UInt64.sub_add_cancel] using hsum

theorem get_eq_getD (m : Memory) (pa : PhysAddr) :
    m.get pa = (m.bytes.data[m.index pa]?).getD 0 := by
  by_cases h : m.index pa < m.bytes.size
  · simp [get, h, ByteArray.getElem_eq_getElem_data]
  · simp [get, h]

theorem getD_set (m : Memory) (pa : PhysAddr) (byte : UInt8) (j : Nat) :
    ((m.set pa byte).bytes.data[j]?).getD 0 =
      if j = m.index pa then byte else (m.bytes.data[j]?).getD 0 := by
  by_cases hsame : m.get pa = byte
  · rw [set, if_pos hsame]
    rw [get_eq_getD] at hsame
    by_cases hj : j = m.index pa
    · rw [if_pos hj, hj, hsame]
    · rw [if_neg hj]
  by_cases h : m.index pa < m.bytes.size
  · simp only [set, hsame, h, ↓reduceIte, ↓reduceDIte, ByteArray.data_set]
    rw [Array.getElem?_set]
    grind
  · have hgap : m.bytes.data.size + (m.index pa - m.bytes.size) = m.index pa := by
      have : m.bytes.size = m.bytes.data.size := rfl
      omega
    simp only [set, hsame, h, ↓reduceIte, ↓reduceDIte, ByteArray.data_push, ByteArray.data_append,
      Bytes.data_replicate]
    rw [Array.getElem?_push, Array.getElem?_append, Array.getElem?_replicate]
    simp only [Array.size_append, Array.size_replicate, hgap]
    grind

/-- A write changes the byte at its own address and no other. -/
theorem get_set (m : Memory) (pa qa : PhysAddr) (byte : UInt8) :
    (m.set pa byte).get qa = if qa = pa then byte else m.get qa := by
  have hindex : (m.set pa byte).index qa = m.index qa := by
    rw [index, set_origin, index]
  rw [get_eq_getD, get_eq_getD, hindex, getD_set]
  by_cases he : qa = pa
  · simp [he]
  · have hne : m.index qa ≠ m.index pa := fun h => he (m.index_injective h)
    simp [he, hne]

end Memory

end KernelMemory
