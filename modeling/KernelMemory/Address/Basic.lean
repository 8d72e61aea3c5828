import KernelMemory.Text.Hex
import KernelMemory.Text.Record

/-!
# Memory addresses

A 64-bit address is tagged with the address space it belongs to: `raw` for an
address of unspecified kind, `physical` for memory as the frame pool counts it,
`virtual` for memory as clients see it.  There is no arithmetic between two
kinds; crossing over takes a `DirectMap`.

Alignment to a page is computed with masks.
-/

namespace KernelMemory

/-- The address space an address belongs to. -/
inductive AddressKind where
  | raw
  | physical
  | virtual
  deriving DecidableEq

/-- A 64-bit address of the given kind. -/
structure Address (kind : AddressKind) where
  val : UInt64
  deriving DecidableEq, Inhabited

/-- An address of unspecified kind. -/
abbrev RawAddr := Address .raw

/-- An address of physical memory. -/
abbrev PhysAddr := Address .physical

/-- An address as seen through the page tables. -/
abbrev VirtAddr := Address .virtual

/-- The page sizes in use; frames are pages of 4 KiB. -/
inductive PageSize where
  | size4K
  deriving DecidableEq

namespace PageSize

/-- Number of low address bits that lie inside a page. -/
def shift : PageSize → Nat
  | .size4K => 12

def bytes : PageSize → UInt64
  | .size4K => 4096

def name : PageSize → String
  | .size4K => "4K"

theorem bytes_eq_one_shiftLeft (size : PageSize) :
    size.bytes.toNat = 1 <<< size.shift := by
  cases size
  rfl

end PageSize

namespace Address

variable {kind : AddressKind}

theorem eq_of_toNat {a b : Address kind} (h : a.val.toNat = b.val.toNat) : a = b :=
  congrArg Address.mk (UInt64.toNat_inj.1 h)

def zero : Address kind := ⟨0⟩

def isNull (a : Address kind) : Bool := a.val == 0

def nonNull? (a : Address kind) : Option (Address kind) :=
  if a.val = 0 then none else some a

theorem nonNull?_eq_some {a : Address kind} (h : a.isNull = false) : a.nonNull? = some a := by
  rw [isNull, beq_eq_false_iff_ne] at h
  rw [nonNull?, if_neg h]

/-- Whether the address is a multiple of the page size. -/
def isAligned (a : Address kind) (size : PageSize) : Bool :=
  a.val &&& (size.bytes - 1) == 0

/-- The start of the page that holds the address. -/
def alignDown (a : Address kind) (size : PageSize) : Address kind :=
  ⟨a.val &&& ~~~(size.bytes - 1)⟩

/-- The address `n` bytes further, unless that passes the last address. -/
def checkedAdd? (a : Address kind) (n : UInt64) : Option (Address kind) :=
  if a.val.toNat + n.toNat < UInt64.size then some ⟨a.val + n⟩ else none

/-- The first page boundary at or above the address, unless it passes the last
address. -/
def alignUp? (a : Address kind) (size : PageSize) : Option (Address kind) :=
  (a.checkedAdd? (size.bytes - 1)).map (·.alignDown size)

/-- Bytes from `base` up to the address, unless it lies below `base`. -/
def offsetFrom? (a base : Address kind) : Option UInt64 :=
  if base.val ≤ a.val then some (a.val - base.val) else none

instance : Ord (Address kind) where
  compare a b := compareOfLessAndEq a.val b.val

/-- The word that introduces a described address. -/
def label : AddressKind → String
  | .raw => "MemoryAddress"
  | .physical => "PA"
  | .virtual => "VA"

def text (a : Address kind) : String := Text.hexWord a.val

/-- The text of an address that names its kind. -/
def describe (a : Address kind) : String := Text.wrapped (label kind) a.text

end Address

end KernelMemory
