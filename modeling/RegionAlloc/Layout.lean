import RegionAlloc.Guarded
import RegionAlloc.Word

/-!
# Layout requests

A layout is a size and a boundary. Memory for a layout comes from a guarded heap if the heap's own
boundary is at least as coarse. Growing and shrinking move the data to a new place; a failure leaves
the old one as it was.
-/

namespace RegionAlloc

/-- A size and a boundary such that the size, rounded up to the boundary, is a signed word. -/
structure Layout where
  size : Nat
  align : Nat
  isPowerOfTwo : Word.IsPowerOfTwo align
  roundsUp : size + align ≤ 0x8000000000000000

namespace Layout

/-- The layout of this size and boundary, if it is one. -/
def of? (size align : Nat) : Option Layout :=
  if h : Word.IsPowerOfTwo align ∧ size + align ≤ 0x8000000000000000 then
    some ⟨size, align, h.1, h.2⟩
  else
    none

end Layout

namespace Guarded

variable {σ : Type} [Allocator σ] (body : HookBodies (Guarded σ))

/-- Allocates memory for a layout. There is none for a boundary coarser than the heap's. -/
def allocateLayout (layout : Layout) : Call (Guarded σ) (Option Nat) := do
  if (← alignment) < layout.align then
    return none
  else
    allocate body layout.size

def releaseLayout (address : Nat) (_layout : Layout) : Call (Guarded σ) Unit :=
  release address

/-- Allocates memory for a layout and overwrites it with zeros. -/
def allocateLayoutZeroed (layout : Layout) : Call (Guarded σ) (Option Nat) := do
  match ← allocateLayout body layout with
  | none => return none
  | some address =>
    HasRegion.writeAt address (List.replicate layout.size 0)
    return some address

/-- Moves the memory of `layout` at `address` to new memory of layout `target`, as much of it as
fits. If there is no new memory, the old stays. -/
def reallocateLayout (address : Nat) (layout target : Layout) :
    Call (Guarded σ) (Option Nat) := do
  match ← allocateLayout body target with
  | none => return none
  | some moved =>
    let data ← HasRegion.readAt address (min layout.size target.size)
    HasRegion.writeAt moved data
    releaseLayout address layout
    return some moved

end Guarded

end RegionAlloc
