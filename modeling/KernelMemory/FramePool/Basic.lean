import KernelMemory.Bitmap.FirstFit
import KernelMemory.Parameters
import KernelMemory.Program.Basic
import KernelMemory.Sync.Counter

/-!
# Frame pools

One range of physical memory, handed out in runs of whole frames.  Bit `i` of
the bitmap stands for the frame at `base + i * 4096`, and a counter follows the
number of leased frames.

This module has a pool's data, its construction, the conversion between frames
and addresses, and the sections that its operations run under the lock.
-/

namespace KernelMemory

/-- A range of physical memory and the record of which frames are leased. -/
structure FramePool where
  base : PhysAddr
  /-- The size of the range in bytes, a partial last frame included. -/
  totalMemory : UInt64
  bitmap : Bitmap
  /-- The number of leased frames, for readers that take no lock. -/
  allocated : Counter

/-- How many frames there are, are leased, and are free. -/
structure FrameUsage where
  total : Nat
  allocated : Nat
  free : Nat
  deriving DecidableEq

def FrameUsage.describe (stats : FrameUsage) : String :=
  Text.record "FrameStats" [
    ("total", toString stats.total),
    ("allocated", toString stats.allocated),
    ("free", toString stats.free)]

namespace FramePool

def frameBytes : Nat := Parameters.frameSize.toNat

/-- Whole frames in `totalMemory` bytes. -/
def framesIn (totalMemory : UInt64) : Nat := (totalMemory / Parameters.frameSize).toNat

/-- The number of frames in a pool; memory past the last whole one is ignored. -/
def totalFrames (pool : FramePool) : Nat := framesIn pool.totalMemory

/-- Bytes of bitmap that track `totalMemory` bytes. -/
def bitmapBytesFor (totalMemory : UInt64) : Nat :=
  ceilDiv (framesIn totalMemory) 8

/-- Takes charge of `totalMemory` bytes from `base` on, with a bitmap in the
storage that it is lent.  Every frame starts free. -/
def creating (base : PhysAddr) (totalMemory : UInt64) : Section ByteArray FramePool := do
  let storage ← get
  let bytes := bitmapBytesFor totalMemory
  if base.isAligned .size4K = false then
    .refuse (.invalidArgument .baseUnaligned)
  else if (base.checkedAdd? totalMemory).isNone then
    .refuse (.invalidArgument .rangeWraps)
  else if framesIn totalMemory = 0 then
    .refuse (.invalidArgument .noWholeFrame)
  else if storage.size < bytes then
    .refuse (.invalidArgument .storageTooSmall)
  else
    let bitmap ← Bitmap.withUnits bytes (framesIn totalMemory)
    return { base, totalMemory, bitmap, allocated := .zero }

/-- What creating a pool in the given storage delivers. -/
def create (base : PhysAddr) (totalMemory : UInt64) (storage : ByteArray) : Result FramePool :=
  ((creating base totalMemory).perform storage).1

def allocatedFrames (pool : FramePool) : Nat := pool.allocated.value.toNat

/-- The index of the frame that starts at an address. -/
def frameIndex? (pool : FramePool) (pa : PhysAddr) : Option Nat :=
  if pa.isAligned .size4K then
    match pa.offsetFrom? pool.base with
    | none => none
    | some offset =>
        let index := (offset / Parameters.frameSize).toNat
        if index < pool.totalFrames then some index else none
  else
    none

def addressOf (pool : FramePool) (index : Nat) : Result PhysAddr := do
  let offset ← Word.mul index frameBytes
  let address ← Word.add pool.base.val.toNat offset
  return ⟨UInt64.ofNat address⟩

/-- The usage that the bitmap shows. -/
def usage (pool : FramePool) : Result FrameUsage := do
  let free ← pool.bitmap.countZeros
  let allocated ← Word.sub pool.totalFrames free
  return { total := pool.totalFrames, allocated, free }

def describe (pool : FramePool) : String :=
  Text.openRecord "BitmapFrameAlloc" [
    ("base", pool.base.describe),
    ("total_frames", toString pool.totalFrames),
    ("allocated", pool.allocated.describe)]

/-- Runs a section on the bitmap of a pool. -/
def onBitmap {α : Type} (body : Section Bitmap α) : Section FramePool α :=
  body.zoom (·.bitmap) fun pool bitmap => { pool with bitmap }

/-- Marks the lowest run of `count` free frames and gives its first index. -/
def claim (count : Nat) : Section FramePool Nat := do
  let index ← onBitmap (Bitmap.alloc count)
  modify fun pool => { pool with allocated := (pool.allocated.add (UInt64.ofNat count)).2 }
  return index

/-- Frees `count` frames from `index` on if all of them are leased, and says
whether they were. -/
def reclaim (index count : Nat) : Section FramePool Bool := do
  let pool ← get
  if count = 0 ∨ (pool.bitmap.isRangeSet index count).valueOr false = false then
    return false
  else
    onBitmap (Bitmap.clearRange index count)
    modify fun pool => { pool with allocated := (pool.allocated.sub (UInt64.ofNat count)).2 }
    return true

/-- Marks `count` frames from `index` on if none of them is leased. -/
def occupy (index count : Nat) : Section FramePool Unit := do
  let pool ← get
  if count = 0 ∨ pool.totalFrames < index + count then
    .refuse (.invalidArgument .reservationOutside)
  else if Nat.any count (fun k _ => (pool.bitmap.test (index + k)).valueOr true) then
    .refuse (.invalidArgument .reservationOverlaps)
  else
    onBitmap (Bitmap.setRange index count true)
    modify fun pool => { pool with allocated := (pool.allocated.add (UInt64.ofNat count)).2 }

end FramePool

end KernelMemory
