import RegionAlloc.Tagged.Header

/-!
# Allocation from a tagged heap

A request takes the first free block that is large enough. If more than two headers are left over,
the block is split and the rest takes its place in the free list.
-/

namespace RegionAlloc.Tagged.Heap

/-- The leftover that a block must exceed to be split. -/
def splitLimit (h : Heap) : Nat :=
  2 * h.headerSize

/-- Follows the free list from `block`, which `anchor` links to, to the first block of at least
`padded` bytes, or to its last block if there is none. -/
def firstFitFrom (h : Heap) (padded : Nat) : Nat → Anchor → Nat → Except Fault (Anchor × Nat)
  | 0, _, _ => throw .endless
  | fuel + 1, anchor, block => do
    if (← h.blockSize block) < padded then
      match ← h.next? (.block block) with
      | some next => h.firstFitFrom padded fuel (.block block) next
      | none => return (anchor, block)
    else
      return (anchor, block)

/-- The first free block of at least `padded` bytes, or the last block of the list, with the anchor
that links to it. -/
def firstFit (h : Heap) (padded : Nat) : Except Fault (Anchor × Nat) := do
  h.firstFitFrom padded h.walkBound .head (← h.next .head)

/-- Splits `block` after `padded` bytes. The rest of `rest` bytes becomes a free block that `anchor`
links to and that links to `next`. -/
def split (anchor : Anchor) (block padded rest : Nat) (next : Option Nat) : Call Heap Unit := do
  let remainder ← .ask fun h => h.overflow.add block padded
  setSize remainder rest .free
  setNext (.block remainder) next
  setNext anchor (some remainder)
  setSize block padded .free

/-- Cuts `block` down to `padded` bytes if enough is left over. -/
def trim (anchor : Anchor) (block padded : Nat) (next : Option Nat) : Call Heap Unit := do
  let found ← .ask fun h => h.blockSize block
  let rest ← .ask fun h => h.overflow.sub found padded
  let h ← .state
  if h.splitLimit < rest then
    split anchor block padded rest next
  else
    return ()

/-- Takes `block` out of the free list, for a request padded to `padded` bytes. -/
def takeBlock (anchor : Anchor) (block padded : Nat) : Call Heap Unit := do
  let next ← .ask fun h => h.next? (.block block)
  setNext anchor next
  trim anchor block padded next
  let size ← .ask fun h => h.blockSize block
  count (Usage.allocate size)
  setSize block size .allocated
  setNext (.block block) none
  .emit (.logged (.tagged (.took block size)))

/-- Takes a block for a padded request and gives its address, if there is one. -/
def allocatePadded (padded : Nat) : Call Heap (Option Nat) := do
  let (anchor, block) ← .ask fun h => h.firstFit padded
  let h ← .state
  if block = h.endMarker then
    .emit (.logged (.tagged (.noBlock padded)))
    return none
  else
    takeBlock anchor block padded
    let address ← .ask fun h => do h.region.addressOf (← h.overflow.add block h.headerSize)
    return some address

/-- Allocates `request` bytes and gives their address. There is none if nothing was asked for, if
the padded size is too large, or if no free block is large enough. Never runs a hook. -/
def tryAllocate (request : Nat) : Call Heap (Option Nat) := do
  let h ← .state
  if request = 0 then
    return none
  else
    match h.settings.paddedSize? request with
    | none =>
      .emit (.logged (.tagged (.rejected request)))
      return none
    | some padded =>
      if h.usage.free < padded then
        .emit (.logged (.tagged (.exhausted padded h.usage.free)))
        return none
      else
        allocatePadded padded

end RegionAlloc.Tagged.Heap
