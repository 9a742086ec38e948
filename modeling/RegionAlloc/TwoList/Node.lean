import RegionAlloc.Call
import RegionAlloc.Region.Basic
import RegionAlloc.SetupError
import RegionAlloc.Usage

/-!
# Two-list heaps and their nodes

A two-list heap keeps every block of its region on one of two chains, the free blocks on one and the
used blocks on the other, both in address order. A block is a node of sixteen bytes, a link word and
a size word, and then as many bytes of data as the size word says. Blocks lie on no boundary.

Links are used as they are read. A link that leads out of the region is noticed by the next access.
-/

namespace RegionAlloc.TwoList

/-- One of the two chains of blocks. -/
inductive Chain where
  | free
  | used
  deriving DecidableEq, Repr

def headerSize : Nat := 16

/-- A heap with a chain of free and a chain of used blocks. -/
structure Heap where
  region : Region
  freeHead : Option Nat
  usedHead : Option Nat
  usage : Usage
  /-- What the machine does with sums and differences that are no words. -/
  overflow : Overflow

namespace Heap

/-- The fewest bytes a region has to have: one node and a byte of data. -/
def requiredSize : Nat :=
  headerSize + 1

/-- Lays out a heap whose region is one free block, or gives the region back. -/
def create (region : Region) (overflow : Overflow) : Except Refusal Heap :=
  if region.size < requiredSize then
    .error { error := .regionTooSmall region.size requiredSize, region }
  else
    let usable := region.size - headerSize
    .ok {
      region := (region.writeWord 0 Word.nil).writeWord 8 usable
      freeHead := some 0
      usedHead := none
      usage := Usage.start usable
      overflow }

def creationRecord (h : Heap) : Record :=
  .twoList (.formatted h.region.size h.usage.free)

def headOf (h : Heap) : Chain → Option Nat
  | .free => h.freeHead
  | .used => h.usedHead

def dataOf (h : Heap) (node : Nat) : Except Fault Nat :=
  h.overflow.add node headerSize

def sizeField (h : Heap) (node : Nat) : Except Fault Nat :=
  h.overflow.add node 8

def next? (h : Heap) (node : Nat) : Except Fault (Option Nat) := do
  let word ← h.region.loadWord node
  return if word = Word.nil then none else some word

/-- The number of data bytes of a block. -/
def blockSize (h : Heap) (node : Nat) : Except Fault Nat := do
  h.region.loadWord (← h.sizeField node)

def endOf (h : Heap) (node : Nat) : Except Fault Nat := do
  h.overflow.add (← h.dataOf node) (← h.blockSize node)

def putWord (h : Heap) (offset word : Nat) : Heap :=
  { h with region := h.region.writeWord offset word }

def putHead (h : Heap) (chain : Chain) (link : Option Nat) : Heap :=
  match chain with
  | .free => { h with freeHead := link }
  | .used => { h with usedHead := link }

def setNext (node : Nat) (link : Option Nat) : Call Heap Unit :=
  .change (fun h => h.region.checkRange node 8) fun _ h => h.putWord node (link.getD Word.nil)

/-- The offset to store the size of a block at. -/
def sizePlace (h : Heap) (node : Nat) : Except Fault Nat := do
  let field ← h.sizeField node
  h.region.checkRange field 8
  return field

def setBlockSize (node size : Nat) : Call Heap Unit :=
  .change (fun h => h.sizePlace node) fun field h => h.putWord field size

/-- Stores the link that leads on from `previous`, or the first link of the chain. -/
def setSuccessor (chain : Chain) (previous : Option Nat) (link : Option Nat) :
    Call Heap Unit :=
  match previous with
  | some node => setNext node link
  | none => .update fun h => h.putHead chain link

def count (step : Overflow → Usage → Except Fault Usage) : Call Heap Unit :=
  .change (fun h => step h.overflow h.usage) fun usage h => { h with usage }

/-- More steps than a walk along a chain can take without meeting a block twice. A walk that does
meet a block twice never ends. -/
def walkBound (h : Heap) : Nat :=
  h.region.size + 1

/-- Takes `node`, which follows `previous`, out of a chain. -/
def unlink (chain : Chain) (previous : Option Nat) (node : Nat) : Call Heap Unit := do
  let next ← .ask fun h => h.next? node
  setSuccessor chain previous next

/-- Follows a chain from `current`, which comes after `previous`, to the first block that is not
below `node`. -/
def placeFrom (h : Heap) (node : Nat) :
    Nat → Option Nat → Option Nat → Except Fault (Option Nat × Option Nat)
  | _, previous, none => return (previous, none)
  | 0, _, some _ => throw .endless
  | fuel + 1, previous, some current => do
    if current < node then
      h.placeFrom node fuel (some current) (← h.next? current)
    else
      return (previous, some current)

/-- Puts `node` into a chain, in front of the first block that is not below it. -/
def insertSorted (chain : Chain) (node : Nat) : Call Heap Unit := do
  let (previous, next) ← .ask fun h => h.placeFrom node h.walkBound none (h.headOf chain)
  setNext node next
  setSuccessor chain previous (some node)

end Heap

end RegionAlloc.TwoList
