import RegionAlloc.TwoList.Node

/-!
# Reading a two-list heap

Each chain can be walked as a list of entries. The statistics are drawn from the free chain; the
audit adds up both.
-/

namespace RegionAlloc.TwoList.Heap

def entriesFrom (h : Heap) : Nat → Option Nat → Except Fault (List Entry)
  | _, none => return []
  | 0, some _ => throw .endless
  | fuel + 1, some node => do
    let next ← h.next? node
    let size ← h.blockSize node
    return ⟨node, size⟩ :: (← h.entriesFrom fuel next)

def entries (h : Heap) (chain : Chain) : Except Fault (List Entry) :=
  h.entriesFrom h.walkBound (h.headOf chain)

def statistics (h : Heap) : Except Fault Statistics := do
  return .ofSurvey (.ofEntries (← h.entries .free)) h.usage

/-- The sizes of blocks added up; the sum stops at the largest word. -/
def dataBytes (entries : List Entry) : Nat :=
  (Survey.ofEntries entries).total

/-- The bytes of all blocks, headers included, if a word holds them. -/
def totalBytes? (used free : List Entry) : Option Nat := do
  let blocks ← Word.add? used.length free.length
  let headers ← Word.mul? blocks headerSize
  let withUsed ← Word.add? headers (dataBytes used)
  Word.add? withUsed (dataBytes free)

/-- The heap is sound: all blocks together, headers included, have as many bytes as the region, and
the data of the free blocks is as many bytes as are free. -/
def isSound (h : Heap) : Except Fault Bool := do
  let free ← h.entries .free
  let used ← h.entries .used
  return totalBytes? used free = some h.region.size && dataBytes free == h.usage.free

end RegionAlloc.TwoList.Heap
