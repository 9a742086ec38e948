import RegionAlloc.Tagged.Header

/-!
# Release into a tagged heap

A released address is checked before anything is written. The block then goes into the free list at
its place in address order and is merged with the free blocks that touch it, but never with the end
marker.
-/

namespace RegionAlloc.Tagged.Heap

/-- The offset one header before `address`, if both lie in the region. -/
def blockAt? (h : Heap) (address : Nat) : Option Nat :=
  (h.region.offsetOf? address).bind fun offset =>
    if h.headerSize ≤ offset then some (offset - h.headerSize) else none

/-- The block whose payload is at `address`. Faults unless the address leads to a block that is
allocated and has no link. -/
def releasable (h : Heap) (address : Nat) : Except Fault Nat := do
  match h.blockAt? address with
  | none => throw (.strayPointer address)
  | some block =>
    h.checkPlace block
    if h.endMarker ≤ block then
      throw (.endMarkerPointer address)
    else if (← h.blockTag block) = .free then
      throw (.notAllocated block)
    else if (← h.region.loadWord block) = h.encodeLink none then
      return block
    else
      throw (.carriesLink block)

/-- The payload of a block of `size` bytes: its offset and its length. Faults unless it lies in the
region. -/
def payload (h : Heap) (block size : Nat) : Except Fault (Nat × Nat) := do
  let offset ← h.overflow.add block h.headerSize
  let length ← h.overflow.sub size h.headerSize
  h.region.checkRange offset length
  return (offset, length)

/-- Overwrites the payload of a block of `size` bytes with zeros. -/
def clearPayload (block size : Nat) : Call Heap Unit :=
  .change (fun h => h.payload block size) fun (offset, length) h =>
    { h with region := h.region.writeBytes offset (List.replicate length 0) }

def clearIfAsked (block size : Nat) : Call Heap Unit := do
  let h ← .state
  if h.settings.clearOnFree then
    clearPayload block size
  else
    return ()

/-- Follows the free list from `next`, which `anchor` links to, to the first entry that is not
below `block`. -/
def placeFrom (h : Heap) (block : Nat) : Nat → Anchor → Nat → Except Fault (Anchor × Nat)
  | 0, _, _ => throw .endless
  | fuel + 1, anchor, next => do
    if next < block then
      h.placeFrom block fuel (.block next) (← h.next (.block next))
    else
      return (anchor, next)

/-- The place of `block` in the free list: the anchor before it and the entry after it. -/
def placeOf (h : Heap) (block : Nat) : Except Fault (Anchor × Nat) := do
  h.placeFrom block h.walkBound .head (← h.next .head)

def endsAt (h : Heap) (block stop : Nat) : Except Fault Bool := do
  return (← h.overflow.add block (← h.blockSize block)) = stop

def joinedSize (h : Heap) (first second : Nat) : Except Fault Nat := do
  h.overflow.add (← h.blockSize first) (← h.blockSize second)

/-- Merges `block` into the block that `anchor` stands for, if that one ends where `block` starts.
Gives the block that holds the bytes of `block` then. -/
def mergeBefore (anchor : Anchor) (block : Nat) : Call Heap Nat := do
  match anchor with
  | .head => return block
  | .block previous =>
    if ← .ask fun h => h.endsAt previous block then
      let size ← .ask fun h => h.joinedSize previous block
      setSize previous size .free
      return previous
    else
      return block

/-- Links `block` to `next`, or merges `next` into it if `block` ends where `next` starts and
`next` is not the end marker. -/
def linkAfter (block next : Nat) : Call Heap Unit := do
  let h ← .state
  if (← .ask fun h => h.endsAt block next) && next != h.endMarker then
    let size ← .ask fun h => h.joinedSize block next
    let after ← .ask fun h => h.next? (.block next)
    setSize block size .free
    setNext (.block block) after
  else
    setNext (.block block) (some next)

/-- Links `anchor` to `block`. A block merged into its predecessor is linked to already. -/
def linkFrom (anchor : Anchor) (block : Nat) : Call Heap Unit :=
  if anchor = .block block then
    return ()
  else
    setNext anchor (some block)

def insertFree (block : Nat) : Call Heap Unit := do
  let (anchor, next) ← .ask fun h => h.placeOf block
  let merged ← mergeBefore anchor block
  linkAfter merged next
  linkFrom anchor merged

/-- Takes back the block whose payload is at `address`; the null address is ignored. -/
def release (address : Nat) : Call Heap Unit := do
  if address = 0 then
    return ()
  else
    let block ← .ask fun h => h.releasable address
    let size ← .ask fun h => h.blockSize block
    setSize block size .free
    clearIfAsked block size
    count (Usage.release size)
    insertFree block
    .emit (.logged (.tagged (.returned address size)))

end RegionAlloc.Tagged.Heap
