import KernelMemory.Bytes
import KernelMemory.Section
import KernelMemory.Word

/-!
# Allocation bitmaps

A bitmap keeps one bit per unit in bytes lent by its owner: unit `i` is bit
`i % 8` of byte `i / 8`, and a set bit means that the unit is in use.  It is
bound to the first `length` bytes of its storage and tracks the first `units`
bits of those; the bits behind them are padding and belong to nobody.

That the tracked bits lie inside the bound bytes, and those inside the storage,
is part of the type, so reading or writing a tracked unit cannot leave the
storage.
-/

namespace KernelMemory

/-- Bits over lent storage. -/
structure Bitmap where
  /-- The lent bytes, in full. -/
  storage : ByteArray
  /-- How many of them the bitmap is bound to. -/
  length : Nat
  /-- How many bits it tracks. -/
  units : Nat
  length_le : length ≤ storage.size
  units_le : units ≤ 8 * length

namespace Bitmap

/-- The number of bytes a length stands for, if it is positive and the storage
holds that many. -/
def boundBytes (storage : ByteArray) (length : Int) :
    Result { bytes : Nat // bytes ≤ storage.size } :=
  if length ≤ 0 then .refuse (.invalidArgument .lengthNotPositive)
  else if h : length.toNat ≤ storage.size then .ok ⟨length.toNat, h⟩
  else .refuse (.invalidArgument .lengthExceedsStorage)

/-- The storage with its first `n` bytes cleared. -/
def clearFront (storage : ByteArray) (n : Nat) : ByteArray :=
  Bytes.replicate n 0 ++ storage.extract n storage.size

theorem size_clearFront
    {storage : ByteArray} {n : Nat} (h : n ≤ storage.size) :
    (clearFront storage n).size = storage.size := by
  rw [clearFront, ByteArray.size_append, Bytes.size_replicate, ByteArray.size_extract]
  omega

theorem le_eight_mul_of_ceilDiv_le
    {units bytes : Nat} (h : ceilDiv units 8 ≤ bytes) :
    units ≤ 8 * bytes := by
  unfold ceilDiv at h
  omega

/-- Binds `length` bytes of the storage, clears them and tracks the first
`units` bits. -/
def withUnits (length : Int) (units : Nat) : Section ByteArray Bitmap := do
  let storage ← get
  let ⟨bytes, inside⟩ ← boundBytes storage length
  if h : units ≠ 0 ∧ ceilDiv units 8 ≤ bytes then
    let cleared := clearFront storage bytes
    set cleared
    return {
      storage := cleared
      length := bytes
      units := units
      length_le := by rw [size_clearFront inside]; exact inside
      units_le := le_eight_mul_of_ceilDiv_le h.2 }
  else
    .refuse (.invalidArgument .unitsDoNotFit)

/-- Binds `length` bytes of the storage, clears them and tracks every bit. -/
def create (length : Int) : Section ByteArray Bitmap := do
  let bytes ← boundBytes (← get) length
  withUnits length (← Word.mul bytes.val 8)

/-- Binds storage that holds a bitmap already, and keeps what it holds. -/
def attach (units : Nat) : Section ByteArray Bitmap := do
  let storage ← get
  if h : units ≠ 0 ∧ ceilDiv units 8 ≤ storage.size then
    return {
      storage := storage
      length := ceilDiv units 8
      units := units
      length_le := h.2
      units_le := le_eight_mul_of_ceilDiv_le (Nat.le_refl _) }
  else
    .refuse (.invalidArgument .unitsDoNotFit)

def byte (map : Bitmap) (k : Nat) (h : k < map.length) : UInt8 :=
  have inside : k < map.storage.size := Nat.lt_of_lt_of_le h map.length_le
  map.storage[k]

def setByte (map : Bitmap) (k : Nat) (h : k < map.length) (value : UInt8) : Bitmap :=
  { map with
    storage := map.storage.set k value (Nat.lt_of_lt_of_le h map.length_le)
    length_le := by rw [Bytes.size_set]; exact map.length_le }

theorem div_eight_lt_length (map : Bitmap) {i : Nat} (h : i < map.units) :
    i / 8 < map.length := by
  have := map.units_le
  omega

/-- Whether a tracked unit is in use. -/
def bit (map : Bitmap) (i : Nat) (h : i < map.units) : Bool :=
  map.byte (i / 8) (map.div_eight_lt_length h) &&& (1 <<< UInt8.ofNat (i % 8)) != 0

/-- Marks a tracked unit as used or free. -/
def put (map : Bitmap) (i : Nat) (h : i < map.units) (value : Bool) : Bitmap :=
  let mask : UInt8 := 1 <<< UInt8.ofNat (i % 8)
  let old := map.byte (i / 8) (map.div_eight_lt_length h)
  map.setByte (i / 8) (map.div_eight_lt_length h) (if value then old ||| mask else old &&& ~~~mask)

/-- Marks the units from `i` up to `stop`, whole bytes at a time where it can. -/
def fill (map : Bitmap) (i stop : Nat) (h : stop ≤ map.units) (value : Bool) : Bitmap :=
  if hi : i < stop then
    have inRange : i < map.units := Nat.lt_of_lt_of_le hi h
    if i % 8 = 0 ∧ 8 ≤ stop - i then
      (map.setByte (i / 8) (map.div_eight_lt_length inRange)
        (if value then 0xFF else 0x00)).fill (i + 8) stop h value
    else
      (map.put i inRange value).fill (i + 1) stop h value
  else
    map
termination_by stop - i

def indexRefusal (map : Bitmap) (index : Nat) : AllocError :=
  .outOfRange index map.units

/-- The refusal of a range, which names its last index, or the last machine
word if the range runs past that. -/
def rangeRefusal (map : Bitmap) (start count : Nat) : AllocError :=
  .outOfRange (min (start + count) (Word.count - 1) - 1) map.units

/-- Whether the unit `index` is in use. -/
def test (map : Bitmap) (index : Nat) : Result Bool :=
  if h : index < map.units then .ok (map.bit index h)
  else .refuse (map.indexRefusal index)

def set (index : Nat) (value : Bool) : Section Bitmap Unit := do
  let map ← get
  if h : index < map.units then MonadStateOf.set (map.put index h value)
  else .refuse (map.indexRefusal index)

/-- Marks `count` units from `start` on. -/
def setRange (start count : Nat) (value : Bool) : Section Bitmap Unit := do
  let map ← get
  if h : start + count ≤ map.units then
    MonadStateOf.set (map.fill start (start + count) h value)
  else
    .refuse (map.rangeRefusal start count)

def clearRange (start count : Nat) : Section Bitmap Unit :=
  setRange start count false

def allSet (map : Bitmap) (i stop : Nat) (h : stop ≤ map.units) : Bool :=
  if hi : i < stop then
    if map.bit i (Nat.lt_of_lt_of_le hi h) then map.allSet (i + 1) stop h else false
  else
    true
termination_by stop - i

def isRangeSet (map : Bitmap) (start count : Nat) : Result Bool :=
  if h : start + count ≤ map.units then .ok (map.allSet start (start + count) h)
  else .refuse (map.rangeRefusal start count)

/-- The number of set bits in a byte, by adding neighbouring bits, pairs and
halves. -/
def popCount (b : UInt8) : Nat :=
  let pairs : UInt8 := b - ((b >>> (1 : UInt8)) &&& 0x55)
  let nibbles : UInt8 := (pairs &&& 0x33) + ((pairs >>> (2 : UInt8)) &&& 0x33)
  ((nibbles + (nibbles >>> (4 : UInt8))) &&& 0x0F).toNat

/-- The number of units in use: whole bytes first, then the tracked bits of the
last one. -/
def countOnes (map : Bitmap) : Nat :=
  have whole : map.units / 8 ≤ map.length := by have := map.units_le; omega
  let full := Nat.fold (map.units / 8)
    (fun k h ones => ones + popCount (map.byte k (Nat.lt_of_lt_of_le h whole))) 0
  if h : map.units % 8 = 0 then full
  else
    have inside : map.units / 8 < map.length := by have := map.units_le; omega
    let mask : UInt8 := (1 <<< UInt8.ofNat (map.units % 8)) - 1
    full + popCount (map.byte (map.units / 8) inside &&& mask)

def countZeros (map : Bitmap) : Result Nat :=
  Word.sub map.units map.countOnes

def describe (map : Bitmap) : String :=
  Text.record "Bitmap" [
    ("length", toString map.length),
    ("units", toString map.units),
    ("used", toString map.countOnes)]

end Bitmap

end KernelMemory
