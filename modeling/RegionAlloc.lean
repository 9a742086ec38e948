import RegionAlloc.Buffer
import RegionAlloc.Listing
import RegionAlloc.Proofs.Arrays
import RegionAlloc.Proofs.Capacity
import RegionAlloc.Proofs.Locked
import RegionAlloc.Proofs.Reallocation
import RegionAlloc.Proofs.Statistics
import RegionAlloc.Proofs.Tagged.Audit
import RegionAlloc.Proofs.Tagged.Creation
import RegionAlloc.Proofs.Tagged.DoubleFree
import RegionAlloc.Proofs.Tagged.Erasure
import RegionAlloc.Proofs.Tagged.FirstFit
import RegionAlloc.Proofs.Tagged.Fusion
import RegionAlloc.Proofs.Tagged.Headers
import RegionAlloc.Proofs.Tagged.Zeroed
import RegionAlloc.Proofs.TwoList.Audit
import RegionAlloc.Proofs.TwoList.FirstFit
import RegionAlloc.Proofs.TwoList.Fusion
import RegionAlloc.Proofs.TwoList.MergePass
import RegionAlloc.Proofs.Undo
import RegionAlloc.Region.Lemmas
import RegionAlloc.Session.Placement
import RegionAlloc.Session.Run

/-!
# Allocators in a region of bytes

Two allocators hand out memory from one run of bytes and keep their books inside it. A tagged heap
(`RegionAlloc.Tagged.Heap`) marks every block in its header as free or allocated and finds the
neighbours of a released block through the free list. A two-list heap (`RegionAlloc.TwoList.Heap`)
chains the free and the used blocks and merges what touches after each release. Both can be put behind
a lock (`RegionAlloc.Guarded`) and serve arrays of typed elements (`RegionAlloc.TypedHandle`).

The theory under `RegionAlloc.Proofs` follows a client through any run of calls: what it holds is safe,
what the heap shows and counts is exact, and legal use never faults. It says which block an
allocation takes and what a release makes of it, and what still holds of a heap whose headers were
overwritten.
-/
