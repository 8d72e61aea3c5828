import KernelMemory.Address.Checked
import KernelMemory.Kernel
import KernelMemory.Proofs.World.Accounting
import KernelMemory.Proofs.World.FirstFit
import KernelMemory.Proofs.World.Freeing
import KernelMemory.Proofs.World.Isolation
import KernelMemory.Sync.Guarded
import KernelMemory.Workload.Allocation
import KernelMemory.Workload.Sync
import KernelMemory.Proofs.Bitmap.Vector
import KernelMemory.Proofs.Bitmap.Binding
import KernelMemory.Proofs.FramePool.Pieces
import KernelMemory.Proofs.World.Overwrites
import KernelMemory.Proofs.World.Faultless
import KernelMemory.Proofs.Program.Bracketing
import KernelMemory.Proofs.Program.Discipline
import KernelMemory.Proofs.World.Locking
import KernelMemory.Proofs.Kernel.Masking
import KernelMemory.Proofs.Kernel.EntryPoints
import KernelMemory.Proofs.Kernel.Handlers
import KernelMemory.Proofs.Program.Turns
import KernelMemory.Proofs.Sharing.Frames
import KernelMemory.Proofs.Sharing.Blocks
import KernelMemory.Proofs.Sharing.Parties
import KernelMemory.Proofs.Sharing.Exclusion
import KernelMemory.Proofs.World.Teardown
import KernelMemory.Proofs.Program.Respects
import KernelMemory.Proofs.Kernel.Lifecycle
import KernelMemory.Proofs.World.Relocation
import KernelMemory.Proofs.Program.Crew
import KernelMemory.Proofs.World.LockOrder
import KernelMemory.Proofs.Sync.MutualExclusion
import KernelMemory.Proofs.Sync.Callers
import KernelMemory.Proofs.Sync.Accesses
import KernelMemory.Proofs.Sync.WriteOnce
import KernelMemory.Proofs.World.RoundTrip
import KernelMemory.Proofs.World.Availability
import KernelMemory.Proofs.World.FreeOrder
import KernelMemory.Proofs.World.Layouts
import KernelMemory.Proofs.Sync.Counting
import KernelMemory.Proofs.Sync.Nesting
import KernelMemory.Proofs.Bitmap.Scans
import KernelMemory.Proofs.Heap.Numbering
