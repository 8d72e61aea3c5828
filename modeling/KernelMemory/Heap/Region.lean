import KernelMemory.Bitmap.FirstFit
import KernelMemory.DirectMap

/-!
# Heap regions

A run of leased frames that the heap divides into units.  The first bytes of a
region hold its two maps, with one bit per unit:

* `used`: the unit belongs to a block, or lies under the maps;
* `head`: the unit is the first of a block.

A block reaches from its head to the next unit that is free or a head, so the
address of a block is all that is needed to free it.  Units under the maps are
used but never heads, so they are never freed.

The heap reaches the maps through its direct map, and edits them in place:
whatever a section writes to them is in memory on every way out.
-/

namespace KernelMemory

open Parameters (unitBytes unitsPerFrame mapUnitsPerFrame heapGrowFrames)

/-- A run of frames leased by the heap. -/
structure Region where
  base : PhysAddr
  frames : Nat
  /-- Units held by blocks. -/
  used : Nat
  deriving DecidableEq

namespace Region

def units (region : Region) : Nat := region.frames * unitsPerFrame

def mapBytes (region : Region) : Nat := ceilDiv region.units 8

/-- Units under the two maps. -/
def reserved (region : Region) : Nat := ceilDiv (2 * region.mapBytes) unitBytes

/-- A region without blocks. -/
def create (base : PhysAddr) (frames : Nat) : Result Region := do
  let _ ← Word.mul frames unitsPerFrame
  return { base, frames, used := 0 }

/-- Whether a region without blocks has room for `units` units at a multiple of
`alignUnits`. -/
def fitsFresh (region : Region) (units alignUnits : Nat) : Result Bool := do
  let first ← Word.nextMultipleOf region.reserved alignUnits
  let stop ← Word.add first units
  return stop ≤ region.units

/-- The least number of frames, at least `frames`, whose region has room for
`units` units at a multiple of `alignUnits`. -/
def leastFrames (units alignUnits frames : Nat) : Result Nat := do
  let region ← create .zero frames
  if ← region.fitsFresh units alignUnits then
    return frames
  else if h : frames + 1 < Word.count then
    leastFrames units alignUnits (frames + 1)
  else
    .fault .addOverflow
termination_by Word.count - frames

/-- The number of frames to lease for a block of `units` units at a multiple of
`alignUnits`. -/
def framesFor (units alignUnits : Nat) : Result Nat :=
  leastFrames units alignUnits
    (max (ceilDiv units (unitsPerFrame - mapUnitsPerFrame)) heapGrowFrames)

/-- Bytes that blocks can take. -/
def capacity (region : Region) : Result Nat := do
  let units ← Word.sub region.units region.reserved
  Word.mul units unitBytes

/-- Units that are neither reserved nor held by blocks. -/
def freeUnits (region : Region) : Result Nat := do
  let units ← Word.sub region.units region.reserved
  Word.sub units region.used

/-- The unit that starts at an address. -/
def unitOf (region : Region) (pa : PhysAddr) : Result (Option Nat) :=
  match pa.offsetFrom? region.base with
  | none => return none
  | some offset => do
      let bytes ← Word.mul region.units unitBytes
      if bytes ≤ offset.toNat ∨ offset.toNat % unitBytes ≠ 0 then
        return none
      else
        return some (offset.toNat / unitBytes)

def contains (region : Region) (pa : PhysAddr) : Result Bool :=
  match pa.offsetFrom? region.base with
  | none => return false
  | some offset => do
      let bytes ← Word.mul region.units unitBytes
      return offset.toNat < bytes

def addressOf (region : Region) (unit : Nat) : Result PhysAddr := do
  let offset ← Word.mul unit unitBytes
  let address ← Word.add region.base.val.toNat offset
  return ⟨UInt64.ofNat address⟩

end Region

/-- Something for each of the two maps of a region. -/
structure RegionMaps (τ : Type) where
  used : τ
  head : τ

namespace RegionMaps

variable {τ α : Type}

def onUsed (body : Section τ α) : Section (RegionMaps τ) α :=
  body.zoom (·.used) fun maps used => { maps with used }

def onHead (body : Section τ α) : Section (RegionMaps τ) α :=
  body.zoom (·.head) fun maps head => { maps with head }

/-- Binds a bitmap to the bytes of each map. -/
def bind (binding : Section ByteArray Bitmap) :
    Section (RegionMaps ByteArray) (RegionMaps Bitmap) := do
  let used ← onUsed binding
  let head ← onHead binding
  return { used, head }

def bytes (maps : RegionMaps Bitmap) : RegionMaps ByteArray :=
  ⟨maps.used.storage, maps.head.storage⟩

/-- Where the block that holds the unit before `i` ends: the first unit at or
above `i` that is free or a head. -/
def blockEnd (maps : RegionMaps Bitmap) (units i : Nat) : Result Nat := do
  if i < units then
    if ← maps.used.test i then
      if ← maps.head.test i then
        return i
      else
        maps.blockEnd units (i + 1)
    else
      return i
  else
    return i
termination_by units - i

/-- Marks the lowest free run of `units` units at a multiple of `alignUnits` as
a block and gives its first unit; `none` if there is no room. -/
def place (units alignUnits : Nat) : Section (RegionMaps Bitmap) (Option Nat) := do
  match ← (onUsed (Bitmap.allocAligned units alignUnits)).attempt with
  | .ok start =>
      onHead (Bitmap.set start true)
      return some start
  | .error (.refused .outOfMemory) => return none
  | .error failure => throw failure

/-- Frees the block that starts at a unit and gives its size; `none` if no block
starts there. -/
def remove (units start : Nat) : Section (RegionMaps Bitmap) (Option Nat) := do
  let maps ← get
  if ← maps.head.test start then
    let stop ← maps.blockEnd units (start + 1)
    let size ← Word.sub stop start
    onUsed (Bitmap.clearRange start size)
    onHead (Bitmap.set start false)
    return some size
  else
    return none

end RegionMaps

namespace Region

/-- Writes the bytes of both maps. -/
def store (region : Region) (bytes : RegionMaps ByteArray) (m : Memory) : Memory :=
  (m.write region.base bytes.used).write (Memory.offset region.base region.mapBytes) bytes.head

/-- Binds bitmaps to the first bytes of a region. -/
def bindMaps (region : Region) (map : DirectMap) (binding : Section ByteArray Bitmap) :
    Section Memory (RegionMaps Bitmap) := do
  let bytes ← map.view (← get) region.base (2 * region.mapBytes)
  let (result, bytes) := (RegionMaps.bind binding).perform
    ⟨bytes.extract 0 region.mapBytes, bytes.extract region.mapBytes bytes.size⟩
  modify (region.store bytes)
  result

def maps (region : Region) (map : DirectMap) : Section Memory (RegionMaps Bitmap) :=
  region.bindMaps map (Bitmap.attach region.units)

/-- Runs a section on the maps of a region, whose bytes are those in memory. -/
def edit {α : Type} (region : Region) (maps : RegionMaps Bitmap)
    (body : Section (RegionMaps Bitmap) α) : Section Memory α := do
  let (result, maps) := body.perform maps
  modify (region.store maps.bytes)
  result

/-- Clears both maps and marks the units under them as used. -/
def format (region : Region) (map : DirectMap) : Section Memory Unit := do
  let maps ← region.bindMaps map (Bitmap.withUnits region.mapBytes region.units)
  region.edit maps (RegionMaps.onUsed (Bitmap.setRange 0 region.reserved true))

/-- Places a block of `units` units at a multiple of `alignUnits`; `none` if
there is no room. -/
def place (region : Region) (map : DirectMap) (units alignUnits : Nat) :
    Section Memory (Option (PhysAddr × Region)) := do
  let maps ← region.maps map
  match ← region.edit maps (RegionMaps.place units alignUnits) with
  | some start =>
      let held ← Word.add region.used units
      let address ← region.addressOf start
      return some (address, { region with used := held })
  | none => return none

/-- Removes the block that starts at an address and gives its size in units;
`none` if no block starts there. -/
def remove (region : Region) (map : DirectMap) (pa : PhysAddr) :
    Section Memory (Option (Nat × Region)) := do
  match ← region.unitOf pa with
  | none => return none
  | some start =>
      let maps ← region.maps map
      if start < region.reserved then
        return none
      else
        match ← region.edit maps (RegionMaps.remove region.units start) with
        | some units =>
            let held ← Word.sub region.used units
            return some (units, { region with used := held })
        | none => return none

end Region

end KernelMemory
