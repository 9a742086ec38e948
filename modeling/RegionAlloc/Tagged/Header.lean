import RegionAlloc.Call
import RegionAlloc.Region.Basic
import RegionAlloc.Tagged.Settings
import RegionAlloc.Usage

/-!
# Tagged heaps and their headers

A tagged heap divides the range from `start` to `endMarker` into blocks. A block begins with two
words: a link, and a size whose top bit tags the block as free or allocated. The free blocks form a
list in address order; it begins with a link kept outside the region and ends at the end marker, a
header of size zero behind the last block. An allocated block has no link.

A link is stored combined with the canary. Whoever reads a link checks that it leads to an offset
where a block can be.
-/

namespace RegionAlloc.Tagged

/-- Who owns a block. -/
inductive Tag where
  | free
  | allocated
  deriving DecidableEq, Repr

namespace Tag

def isFree (tag : Tag) : Bool :=
  tag == .free

def isAllocated (tag : Tag) : Bool :=
  tag == .allocated

/-- The bit that a size word carries for the tag. -/
def bit : Tag → Nat
  | .free => 0
  | .allocated => 0x8000000000000000

end Tag

/-- A place from which the next link of the free list is read. -/
inductive Anchor where
  /-- The link outside the region. -/
  | head
  | block (offset : Nat)
  deriving DecidableEq, Repr

/-- A heap with tagged blocks. -/
structure Heap where
  /-- The bytes, the headers of all blocks among them. -/
  region : Region
  settings : Settings
  start : Nat
  /-- The offset of the header behind the last block. -/
  endMarker : Nat
  /-- The link to the first free block, as it is stored. -/
  headLink : Nat
  usage : Usage
  hook : Option Hook
  /-- What the machine does with sums and differences that are no words. -/
  overflow : Overflow

namespace Heap

/-- The bytes in front of every payload. -/
def headerSize (h : Heap) : Nat :=
  h.settings.headerSize

/-- Combines a word with the canary; doing so twice gives the word back. -/
def protect (h : Heap) (word : Nat) : Nat :=
  word ^^^ h.settings.canary.toNat

def encodeLink (h : Heap) (link : Option Nat) : Nat :=
  h.protect (link.getD Word.nil)

/-- A block can be at this offset, or the end marker. -/
def IsPlace (h : Heap) (offset : Nat) : Prop :=
  h.start ≤ offset ∧ offset ≤ h.endMarker ∧ (offset - h.start) % h.settings.alignment = 0

instance (h : Heap) (offset : Nat) : Decidable (h.IsPlace offset) :=
  inferInstanceAs (Decidable (_ ∧ _))

def checkPlace (h : Heap) (offset : Nat) : Except Fault Unit :=
  if h.IsPlace offset then .ok () else .error (.strayBlock offset)

/-- Reads a stored link. A link to where no block can be is a fault. -/
def decodeLink (h : Heap) (stored : Nat) : Except Fault (Option Nat) := do
  let offset := h.protect stored
  if offset = Word.nil then
    return none
  else
    h.checkPlace offset
    return some offset

/-- The link at an anchor. -/
def next? (h : Heap) : Anchor → Except Fault (Option Nat)
  | .head => h.decodeLink h.headLink
  | .block b => do h.decodeLink (← h.region.loadWord b)

/-- The link at an anchor, where the free list goes on. -/
def next (h : Heap) (anchor : Anchor) : Except Fault Nat := do
  match ← h.next? anchor with
  | some offset => return offset
  | none => throw .listEndsEarly

def sizeField (h : Heap) (b : Nat) : Except Fault Nat :=
  h.overflow.add b 8

/-- The size of a block, its header included. -/
def blockSize (h : Heap) (b : Nat) : Except Fault Nat := do
  return (← h.region.loadWord (← h.sizeField b)) % 0x8000000000000000

def blockTag (h : Heap) (b : Nat) : Except Fault Tag := do
  return if (← h.region.loadWord (← h.sizeField b)) < 0x8000000000000000 then .free else .allocated

def checkLink (h : Heap) : Anchor → Except Fault Unit
  | .head => .ok ()
  | .block b => h.region.checkRange b 8

def putNext (h : Heap) (anchor : Anchor) (link : Option Nat) : Heap :=
  let stored := h.encodeLink link
  match anchor with
  | .head => { h with headLink := stored }
  | .block b => { h with region := h.region.writeWord b stored }

def setNext (anchor : Anchor) (link : Option Nat) : Call Heap Unit :=
  .change (fun h => h.checkLink anchor) fun _ h => h.putNext anchor link

/-- The offset to store the size of a block at. Faults if the size would reach into the tag bit. -/
def sizePlace (h : Heap) (b size : Nat) : Except Fault Nat := do
  if size < 0x8000000000000000 then
    let field ← h.sizeField b
    h.region.checkRange field 8
    return field
  else
    throw (.blockTooLarge size)

def putSize (h : Heap) (field size : Nat) (tag : Tag) : Heap :=
  { h with region := h.region.writeWord field (size + tag.bit) }

def setSize (b size : Nat) (tag : Tag) : Call Heap Unit :=
  .change (fun h => h.sizePlace b size) fun field h => h.putSize field size tag

def count (step : Overflow → Usage → Except Fault Usage) : Call Heap Unit :=
  .change (fun h => step h.overflow h.usage) fun usage h => { h with usage }

/-- More steps than a walk along the free list can take without meeting a block twice. A walk that
does meet a block twice never ends. -/
def walkBound (h : Heap) : Nat :=
  h.region.size + 1

end Heap

end RegionAlloc.Tagged
