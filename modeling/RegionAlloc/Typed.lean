import RegionAlloc.Guarded

/-!
# Typed handles

A typed handle allocates arrays of one element type from a guarded heap. An array without bytes
takes no memory: its pointer is the element's boundary, taken as an address.

The calls of a handle work on the state of its heap, which is passed in as the state of every call is.
The name of the heap that a handle carries tells the handles on it from those on another; no call reads
it.
-/

namespace RegionAlloc

/-- An element type, as far as memory is concerned. -/
structure Element where
  name : String
  size : Nat
  align : Nat
  deriving DecidableEq, Repr

/-- Why no array was allocated. -/
inductive TypedError where
  /-- No word holds the number of bytes. -/
  | capacityOverflow (count elementSize : Nat)
  /-- The element's boundary is coarser than the heap's. -/
  | misaligned (align heapAlign : Nat)
  | exhausted (size : Nat)
  deriving DecidableEq, Repr

def TypedError.message : TypedError → String
  | .capacityOverflow count elementSize =>
    s!"capacity overflow: {count} elements of {elementSize} bytes"
  | .misaligned align heapAlign =>
    s!"element alignment {align} exceeds heap alignment {heapAlign}"
  | .exhausted size => s!"heap exhausted while allocating {size} bytes"

inductive ArrayPlace where
  /-- Nowhere: it has no bytes. The address is the element's boundary. -/
  | dangling (align : Nat)
  | block (address : Nat)
  deriving DecidableEq, Repr

def ArrayPlace.address : ArrayPlace → Nat
  | .dangling align => align
  | .block address => address

/-- A handle on a heap for arrays of one element type. -/
structure TypedHandle where
  /-- The name of the heap, for comparison with other handles only (`TypedHandle.sameHeap`). -/
  heap : Nat
  element : Element
  deriving DecidableEq, Repr

namespace TypedHandle

def rebind (t : TypedHandle) (element : Element) : TypedHandle :=
  { t with element }

/-- Two handles count as equal if they are handles on the same heap. -/
def sameHeap (t u : TypedHandle) : Bool :=
  t.heap == u.heap

variable {σ : Type} [Allocator σ]

def allocate (t : TypedHandle) (body : HookBodies (Guarded σ)) (count : Nat) :
    Call (Guarded σ) (Except TypedError ArrayPlace) := do
  match Word.mul? count t.element.size with
  | none => return .error (.capacityOverflow count t.element.size)
  | some bytes =>
    let heapAlign ← Guarded.alignment
    if heapAlign < t.element.align then
      return .error (.misaligned t.element.align heapAlign)
    else if bytes = 0 then
      return .ok (.dangling t.element.align)
    else
      match ← Guarded.allocate body bytes with
      | none => return .error (.exhausted bytes)
      | some address => return .ok (.block address)

def release (t : TypedHandle) (address count : Nat) : Call (Guarded σ) Unit := do
  if count = 0 ∨ t.element.size = 0 then
    return ()
  else
    Guarded.release address

end TypedHandle

end RegionAlloc
