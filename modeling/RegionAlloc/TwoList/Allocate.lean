import RegionAlloc.TwoList.Node

/-!
# Allocation from a two-list heap

A request takes the first free block with room for it. If more than a header is left over, the rest
stays behind as a free block; otherwise the block is handed out whole.
-/

namespace RegionAlloc.TwoList.Heap

/-- A free block that a search found: the block before it, itself, and its size. -/
structure Found where
  previous : Option Nat
  node : Nat
  size : Nat
  deriving DecidableEq, Repr

/-- Follows the free chain from `current`, which comes after `previous`, to the first block with
room for `request` bytes. -/
def firstFitFrom (h : Heap) (request : Nat) :
    Nat → Option Nat → Option Nat → Except Fault (Option Found)
  | _, _, none => return none
  | 0, _, some _ => throw .endless
  | fuel + 1, previous, some current => do
    let size ← h.blockSize current
    if request ≤ size then
      return some { previous, node := current, size }
    else
      h.firstFitFrom request fuel (some current) (← h.next? current)

def firstFit (h : Heap) (request : Nat) : Except Fault (Option Found) :=
  h.firstFitFrom request h.walkBound none h.freeHead

/-- Cuts a free block after `request` bytes of data and puts the rest in its place on the chain. -/
def split (previous : Option Nat) (node request : Nat) : Call Heap Unit := do
  let remainder ← .ask fun h => do h.overflow.add (← h.dataOf node) request
  let rest ← .ask fun h => do
    h.overflow.sub (← h.overflow.sub (← h.blockSize node) request) headerSize
  setBlockSize remainder rest
  let next ← .ask fun h => h.next? node
  setNext remainder next
  setSuccessor .free previous (some remainder)
  setBlockSize node request
  let bytes ← .ask fun h => h.overflow.add request headerSize
  count (Usage.allocate bytes)

/-- Takes the found block, or its front, off the free chain. -/
def takeFound (found : Found) (request : Nat) : Call Heap Unit := do
  if request + headerSize < 0x10000000000000000 ∧ request + headerSize < found.size then
    split found.previous found.node request
  else
    unlink .free found.previous found.node
    count (Usage.allocate found.size)

/-- Allocates `request` bytes and gives their address. There is none if nothing was asked for or if
no free block has room. -/
def tryAllocate (request : Nat) : Call Heap (Option Nat) := do
  if request = 0 then
    return none
  else
    match ← .ask fun h => h.firstFit request with
    | none =>
      .emit (.logged (.twoList (.noBlock request)))
      return none
    | some found =>
      takeFound found request
      insertSorted .used found.node
      let address ← .ask fun h => do h.region.addressOf (← h.dataOf found.node)
      let size ← .ask fun h => h.blockSize found.node
      .emit (.logged (.twoList (.took request address size)))
      return some address

end RegionAlloc.TwoList.Heap
