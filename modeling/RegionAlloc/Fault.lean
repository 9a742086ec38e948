import RegionAlloc.Listing

/-!
# Faults

A fault stops a call for good: the allocator has met a state that no legal use leads to, or a
number that a word cannot hold. Each cause is a constructor; `Fault.message` words it.
-/

namespace RegionAlloc

/-- Why a call stopped. -/
inductive Fault where
  /-- `length` bytes at `offset` do not lie in a region of `size` bytes. -/
  | outOfBounds (length offset size : Nat)
  | addOverflow
  | subOverflow
  /-- A link or a pointer leads to an offset that is no block's. -/
  | strayBlock (offset : Nat)
  | listEndsEarly
  /-- A released address lies outside the region or too close to its start. -/
  | strayPointer (address : Nat)
  | endMarkerPointer (address : Nat)
  | notAllocated (block : Nat)
  | carriesLink (block : Nat)
  | blockTooLarge (size : Nat)
  | overdrawn (bytes free : Nat)
  /-- A list leads back to itself, so that walking it never ends. -/
  | endless
  /-- A call waits for a lock that it holds itself. -/
  | deadlock
  deriving DecidableEq, Repr

/-- The wording of a fault, with addresses written as `naming` says. -/
def Fault.message (naming : Naming) : Fault → String
  | .outOfBounds length offset size =>
    s!"access of {length} bytes at offset {hexText offset} is out of arena bounds " ++
      s!"({hexText size})"
  | .addOverflow => "attempt to add with overflow"
  | .subOverflow => "attempt to subtract with overflow"
  | .strayBlock offset =>
    s!"heap corruption: block offset {hexText offset} is outside the heap"
  | .listEndsEarly => "heap corruption: free list ends before the end marker"
  | .strayPointer address =>
    s!"heap corruption: {naming address} does not point into the heap"
  | .endMarkerPointer address =>
    s!"heap corruption: {naming address} points at the end marker"
  | .notAllocated block => s!"heap corruption: block at {hexText block} is not allocated"
  | .carriesLink block =>
    s!"heap corruption: allocated block at {hexText block} carries a link"
  | .blockTooLarge size => s!"block size {hexText size} overflows"
  | .overdrawn bytes free => s!"allocated {bytes} bytes with only {free} bytes free"
  | .endless => "the list leads back to itself"
  | .deadlock => "the lock is held by the waiting call"

end RegionAlloc
