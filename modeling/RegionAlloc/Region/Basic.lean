import RegionAlloc.Fault
import RegionAlloc.Word

/-!
# Byte regions

A region is a run of bytes at a fixed address. An allocator addresses it by offset, keeps its
bookkeeping inside it and hands out addresses into it.

Reading and writing come in two forms. `readWord`, `writeWord`, `readBytes` and `writeBytes` are
total: a byte outside the region reads as zero and is not written. `checkRange` faults if a range
does not lie in the region; `loadWord` checks, then reads.
-/

namespace RegionAlloc

/-- A run of bytes at the address `base`, small enough for every distance in it to be a signed
word. -/
@[ext] structure Region where
  base : Nat
  bytes : ByteArray
  basePos : 0 < base
  sizeLt : bytes.size < 0x8000000000000000
  endLe : base + bytes.size ≤ 0x10000000000000000

namespace Region

/-- The region with these bytes at `base`, if a machine can have it. -/
def ofBytes? (base : Nat) (bytes : ByteArray) : Option Region :=
  if h : 0 < base ∧ bytes.size < 0x8000000000000000 ∧ base + bytes.size ≤ 0x10000000000000000 then
    some ⟨base, bytes, h.1, h.2.1, h.2.2⟩
  else
    none

def size (r : Region) : Nat :=
  r.bytes.size

/-- The byte at an offset, zero outside the region. -/
def byte (r : Region) (offset : Nat) : UInt8 :=
  if h : offset < r.bytes.size then r.bytes.get offset h else 0

/-- A byte that is set leaves an array as long as it was. -/
theorem size_set (bytes : ByteArray) (i : Nat) (value : UInt8) (h : i < bytes.size) :
    (bytes.set i value h).size = bytes.size :=
  Array.size_set h

/-- Writes one byte; an offset outside the region changes nothing. -/
def setByte (r : Region) (offset : Nat) (value : UInt8) : Region :=
  if h : offset < r.bytes.size then
    { r with
      bytes := r.bytes.set offset value h
      sizeLt := by rw [size_set]; exact r.sizeLt
      endLe := by rw [size_set]; exact r.endLe }
  else
    r

/-- The `count` bytes from `offset` on. -/
def readBytes (r : Region) (offset count : Nat) : List UInt8 :=
  (List.range count).map fun i => r.byte (offset + i)

/-- Writes bytes one after the other from `offset` on. -/
def writeBytes (r : Region) (offset : Nat) : List UInt8 → Region
  | [] => r
  | value :: rest => (r.setByte offset value).writeBytes (offset + 1) rest

/-- The number that the `count` bytes from `offset` on stand for, least significant first. -/
def readNat (r : Region) : Nat → Nat → Nat
  | 0, _ => 0
  | count + 1, offset => (r.byte offset).toNat + 256 * r.readNat count (offset + 1)

def readWord (r : Region) (offset : Nat) : Nat :=
  r.readNat 8 offset

def writeWord (r : Region) (offset word : Nat) : Region :=
  r.writeBytes offset (Word.toBytes 8 word)

/-- A word is read as eight bytes. -/
theorem readWord_def (r : Region) (offset : Nat) : r.readWord offset = r.readNat 8 offset := rfl

/-- A word is written as eight bytes. -/
theorem writeWord_def (r : Region) (offset word : Nat) :
    r.writeWord offset word = r.writeBytes offset (Word.toBytes 8 word) := rfl

-- A word is eight bytes long, so to unfold an access to one is to unfold eight accesses.
attribute [irreducible] readWord writeWord

/-- Faults unless the `length` bytes from `offset` on lie in the region. -/
def checkRange (r : Region) (offset length : Nat) : Except Fault Unit :=
  if offset + length ≤ r.size then
    .ok ()
  else
    .error (.outOfBounds length offset r.size)

/-- The word stored at `offset`, which has to lie in the region. -/
def loadWord (r : Region) (offset : Nat) : Except Fault Nat := do
  r.checkRange offset 8
  return r.readWord offset

/-- The address of an offset; the offset just past the last byte still has one. -/
def addressOf (r : Region) (offset : Nat) : Except Fault Nat := do
  r.checkRange offset 0
  return r.base + offset

/-- The offset of an address that lies in the region. -/
def offsetOf? (r : Region) (address : Nat) : Option Nat :=
  if r.base ≤ address ∧ address < r.base + r.size then some (address - r.base) else none

/-- The least offset whose address is a multiple of `alignment`. -/
def alignedStart (r : Region) (alignment : Nat) : Nat :=
  Word.roundUp r.base alignment - r.base

/-- Whether the `length` bytes from an address on lie in the region. -/
def containsRange (r : Region) (address length : Nat) : Bool :=
  r.base ≤ address && address + length ≤ r.base + r.size

def readAt (r : Region) (address count : Nat) : List UInt8 :=
  r.readBytes (address - r.base) count

def writeAt (r : Region) (address : Nat) (data : List UInt8) : Region :=
  r.writeBytes (address - r.base) data

end Region

end RegionAlloc
