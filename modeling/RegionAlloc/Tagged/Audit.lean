import RegionAlloc.Tagged.Header

/-!
# Reading a tagged heap

The free list can be walked as a list of entries, from which the statistics are drawn. The audit
compares that list with the blocks as they lie one behind the other.
-/

namespace RegionAlloc.Tagged.Heap

/-- The free blocks from a link on, up to the end marker or to where the links end. -/
def freeBlocksFrom (h : Heap) : Nat → Option Nat → Except Fault (List Entry)
  | _, none => return []
  | 0, some _ => throw .endless
  | fuel + 1, some block => do
    if block = h.endMarker then
      return []
    else
      let next ← h.next? (.block block)
      let size ← h.blockSize block
      return ⟨block, size⟩ :: (← h.freeBlocksFrom fuel next)

def freeBlocks (h : Heap) : Except Fault (List Entry) := do
  h.freeBlocksFrom h.walkBound (← h.next? .head)

def survey (h : Heap) : Except Fault Survey := do
  return .ofEntries (← h.freeBlocks)

def statistics (h : Heap) : Except Fault Statistics := do
  return .ofSurvey (← h.survey) h.usage

/-- Walks block by block from `block` to the end marker and counts the free blocks. There is no
count if a block is shorter than a header, if two free blocks touch, or if the last block ends
behind the end marker. -/
def tiledFrom (h : Heap) (block : Nat) (afterFree : Bool) : Except Fault (Option Nat) := do
  if block < h.endMarker then
    let size ← h.blockSize block
    if size < h.headerSize then
      return none
    else
      let free := (← h.blockTag block).isFree
      if free && afterFree then
        return none
      else if block + size < 0x10000000000000000 then
        let count ← h.tiledFrom (block + size) free
        return count.map fun n => if free then n + 1 else n
      else
        return none
  else
    return if block = h.endMarker then some 0 else none
termination_by h.endMarker - block
decreasing_by
  have := h.settings.sixteen_le_headerSize
  unfold headerSize at *
  omega

/-- The heap is sound: the blocks from its start tile the range up to the end marker, no two free
blocks touch, and the free list has as many blocks and as many bytes as are free. -/
def isSound (h : Heap) : Except Fault Bool := do
  let listed ← h.survey
  let tiled ← h.tiledFrom h.start false
  return tiled = some listed.count && listed.total == h.usage.free

end RegionAlloc.Tagged.Heap
