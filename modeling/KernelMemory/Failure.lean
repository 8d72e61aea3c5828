import KernelMemory.Address.Basic
import KernelMemory.Text.Quoted

/-!
# Refusals and faults

An operation that does not deliver either *refuses* or *faults*.

A refusal (`AllocError`) is an ordinary answer: the caller asked for something
the allocator cannot do, and nothing has changed.  Its cause maps to a
`Status`, whose code is zero for success and negative otherwise.

A fault (`Fault`) is a broken promise: machine arithmetic left its range, an
assertion failed, or a client's own code gave up.  A fault unwinds to the
caller; whatever was written before it stays written.  After an invalid slice
nobody is left to see that: it ends the process.
-/

namespace KernelMemory

/-- What was wrong with an argument. -/
inductive Misuse where
  | lengthNotPositive
  | lengthExceedsStorage
  | unitsDoNotFit
  | emptyRun
  | alignmentNotPowerOfTwo
  | baseUnaligned
  | rangeWraps
  | noWholeFrame
  | storageTooSmall
  | reservationOutside
  | reservationOverlaps
  | emptyBlock
  | alignmentUnsupported
  | memoryTooLarge
  | other (text : String)
  deriving DecidableEq

def Misuse.message : Misuse → String
  | .lengthNotPositive => "bitmap length must be positive"
  | .lengthExceedsStorage => "bitmap length exceeds its storage"
  | .unitsDoNotFit => "bitmap units do not fit its storage"
  | .emptyRun => "zero-length allocation"
  | .alignmentNotPowerOfTwo => "alignment must be a power of two"
  | .baseUnaligned => "frame base is not frame-aligned"
  | .rangeWraps => "frame range wraps the address space"
  | .noWholeFrame => "no whole frame to manage"
  | .storageTooSmall => "frame bitmap storage too small"
  | .reservationOutside => "reserved run outside managed range"
  | .reservationOverlaps => "reserved run overlaps leased frames"
  | .emptyBlock => "zero-size allocation"
  | .alignmentUnsupported => "unsupported heap alignment"
  | .memoryTooLarge => "more memory than the frame bitmap covers"
  | .other text => text

/-- Why an allocator refused. -/
inductive AllocError where
  /-- A size, length, count or alignment the operation cannot work with. -/
  | invalidArgument (why : Misuse)
  /-- A bit index outside a bitmap of `units` units. -/
  | outOfRange (index units : Nat)
  /-- No free run of the requested size exists. -/
  | outOfMemory
  /-- The address is not the start of anything that can be freed. -/
  | invalidFree (address : PhysAddr)
  /-- The process-wide allocators do not exist yet. -/
  | notInitialized
  /-- The process-wide allocators exist already. -/
  | alreadyInitialized
  deriving DecidableEq

/-- The status word reported where a full refusal cannot be passed on. -/
inductive Status where
  | ok
  | invalidArgument
  | outOfRange
  | outOfMemory
  | invalidFree
  | notInitialized
  | alreadyInitialized
  /-- Reserved for processor capability checks; no allocator reports it. -/
  | hardwareUnsupported
  deriving DecidableEq

namespace Status

/-- The number of a status: zero for success, negative otherwise. -/
def code : Status → Int
  | .ok => 0
  | .invalidArgument => -1
  | .outOfRange => -2
  | .outOfMemory => -3
  | .invalidFree => -4
  | .notInitialized => -5
  | .alreadyInitialized => -6
  | .hardwareUnsupported => -7

def name : Status → String
  | .ok => "Ok"
  | .invalidArgument => "InvalidArgument"
  | .outOfRange => "OutOfRange"
  | .outOfMemory => "OutOfMemory"
  | .invalidFree => "InvalidFree"
  | .notInitialized => "NotInitialized"
  | .alreadyInitialized => "AlreadyInitialized"
  | .hardwareUnsupported => "HardwareUnsupported"

/-- Whether the status reports a failure. -/
def isErr (status : Status) : Bool := status != .ok

end Status

namespace AllocError

def status : AllocError → Status
  | .invalidArgument _ => .invalidArgument
  | .outOfRange _ _ => .outOfRange
  | .outOfMemory => .outOfMemory
  | .invalidFree _ => .invalidFree
  | .notInitialized => .notInitialized
  | .alreadyInitialized => .alreadyInitialized

def message : AllocError → String
  | .invalidArgument why => "invalid argument: " ++ why.message
  | .outOfRange index units =>
      s!"index {index} out of range for bitmap of {units} units"
  | .outOfMemory => "out of memory"
  | .invalidFree address => "invalid free of " ++ address.text
  | .notInitialized => "memory subsystem not initialized"
  | .alreadyInitialized => "memory subsystem already initialized"

/-- A refusal as structured text, with its arguments quoted. -/
def describe (error : AllocError) : String :=
  match error with
  | .invalidArgument why => Text.wrapped error.status.name (Text.quoted why.message)
  | .outOfRange index units =>
      Text.record error.status.name [("index", toString index), ("units", toString units)]
  | .invalidFree address => Text.wrapped error.status.name address.describe
  | .outOfMemory | .notInitialized | .alreadyInitialized => error.status.name

end AllocError

def Status.ofResult {α : Type} : Except AllocError α → Status
  | .ok _ => .ok
  | .error error => error.status

/-- What can break in the middle of an operation. -/
inductive Fault where
  | addOverflow
  | subOverflow
  | mulOverflow
  /-- An alignment test against something that is not a power of two. -/
  | alignmentNotPowerOfTwo
  /-- A busy-wait lock was released while free. -/
  | releasedFreeSpin
  /-- A yielding lock was released while free. -/
  | releasedFreeYield
  /-- A block was deallocated that the heap had not handed out. -/
  | foreignDealloc
  /-- A write-once cell took a value and did not keep it. -/
  | valueLost
  /-- A view of memory that starts at the null pointer, is longer than half of
  the address space, or wraps. -/
  | invalidSlice
  /-- A client's own code gave up. -/
  | raised (text : String)
  deriving DecidableEq

def Fault.message : Fault → String
  | .addOverflow => "attempt to add with overflow"
  | .subOverflow => "attempt to subtract with overflow"
  | .mulOverflow => "attempt to multiply with overflow"
  | .alignmentNotPowerOfTwo => "assertion failed: align.is_power_of_two()"
  | .releasedFreeSpin =>
      "assertion \x60left != right\x60 failed: released a spinlock that was not held\n  left: 0\n right: 0"
  | .releasedFreeYield => "released a lock that was not held"
  | .foreignDealloc => "dealloc of a block this heap did not hand out"
  | .valueLost => "internal error: entered unreachable code: value consumed without being stored"
  | .invalidSlice =>
      "unsafe precondition(s) violated: slice::from_raw_parts_mut requires the pointer to be " ++
        "aligned and non-null, and the total size of the slice not to exceed \x60isize::MAX\x60"
  | .raised text => text

/-- How an operation can fail to deliver. -/
inductive Failure where
  | refused (error : AllocError)
  | fault (fault : Fault)
  deriving DecidableEq

/-- The result of a computation that may refuse or fault. -/
abbrev Result := Except Failure

abbrev Result.refuse {α : Type} (error : AllocError) : Result α :=
  .error (.refused error)

def Result.valueOr {α : Type} (result : Result α) (default : α) : α :=
  match result with
  | .ok a => a
  | .error _ => default

abbrev Result.fault {α : Type} (fault : Fault) : Result α :=
  .error (.fault fault)

end KernelMemory
