import RegionAlloc.TwoList.Node

/-!
# Release into a two-list heap

A released address is looked up on the chain of used blocks; one that is not there is ignored. The
block goes back to the free chain, and a pass over that chain then merges all blocks that touch.
-/

namespace RegionAlloc.TwoList.Heap

/-- Follows a chain from `current`, which comes after `previous`, to the block `node`. Gives the
block before it, or nothing if it is not on the chain. -/
def findFrom (h : Heap) (node : Nat) :
    Nat → Option Nat → Option Nat → Except Fault (Option (Option Nat))
  | _, _, none => return none
  | 0, _, some _ => throw .endless
  | fuel + 1, previous, some current => do
    if current = node then
      return some previous
    else
      h.findFrom node fuel (some current) (← h.next? current)

/-- The size of two blocks that touch, taken together: the header of the second becomes data. -/
def joinedSize (h : Heap) (first second : Nat) : Except Fault Nat := do
  let size ← h.overflow.add (← h.blockSize first) headerSize
  h.overflow.add size (← h.blockSize second)

/-- Merges the block `second` into the block `first`, which links to it and ends where it
starts. -/
def joinNext (first second : Nat) : Call Heap Unit := do
  let size ← .ask fun h => h.joinedSize first second
  setBlockSize first size
  let next ← .ask fun h => h.next? second
  setNext first next
  count (Usage.reclaim headerSize)

/-- Merges the blocks that touch, from `current` to the end of the chain. A merged block is looked
at again, as it may touch the block that follows now. -/
def mergeFrom : Nat → Option Nat → Call Heap Unit
  | _, none => return ()
  | 0, some _ => .fail .endless
  | fuel + 1, some current => do
    match ← .ask fun h => h.next? current with
    | none => return ()
    | some next =>
      if (← .ask fun h => h.endOf current) = next then
        joinNext current next
        mergeFrom fuel (some current)
      else
        mergeFrom fuel (some next)

def mergeTouching : Call Heap Unit := do
  let h ← .state
  mergeFrom (h.walkBound * h.walkBound) h.freeHead

/-- The block whose data is at `address`, if the address can be one. -/
def nodeAt? (h : Heap) (address : Nat) : Option Nat :=
  (h.region.offsetOf? address).bind fun offset =>
    if headerSize ≤ offset then some (offset - headerSize) else none

/-- Takes back the block whose data is at `address`. An address that is no used block's is
ignored. -/
def release (address : Nat) : Call Heap Unit := do
  let h ← .state
  match h.nodeAt? address with
  | none => .emit (.logged (.twoList (.outside address)))
  | some node =>
    match ← .ask fun h => h.findFrom node h.walkBound none h.usedHead with
    | none => .emit (.logged (.twoList (.unknown address)))
    | some previous =>
      unlink .used previous node
      let size ← .ask fun h => h.blockSize node
      insertSorted .free node
      count (Usage.release size)
      .emit (.logged (.twoList (.returned address size)))
      mergeTouching

end RegionAlloc.TwoList.Heap
