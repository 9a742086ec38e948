import RegionAlloc.Call
import RegionAlloc.Region.Basic
import RegionAlloc.Tagged.Allocate
import RegionAlloc.Tagged.Release
import RegionAlloc.TwoList.Allocate
import RegionAlloc.TwoList.Release

/-!
# Allocators

What both kinds of heap can do, and what follows from it alone: an allocation that runs a failure
hook, and an allocation of zeroed memory.

A hook runs after the heap has failed and is whole again, once, and only if something was asked for.
What it does to the state is a parameter: nothing for a bare heap, which no hook can reach.
-/

namespace RegionAlloc

/-- A state that keeps its bytes in a region. -/
class HasRegion (σ : Type) where
  region : σ → Region
  modifyRegion : σ → (Region → Region) → σ

/-- A state that hands out memory of its region. -/
class Allocator (σ : Type) extends HasRegion σ where
  /-- Allocates so many bytes and gives their address, without running a hook. -/
  tryAllocate : Nat → Call σ (Option Nat)
  release : Nat → Call σ Unit
  alignment : σ → Nat
  hook : σ → Option Hook

instance : Allocator Tagged.Heap where
  region h := h.region
  modifyRegion h f := { h with region := f h.region }
  tryAllocate := Tagged.Heap.tryAllocate
  release := Tagged.Heap.release
  alignment h := h.settings.alignment
  hook h := h.hook

instance : Allocator TwoList.Heap where
  region h := h.region
  modifyRegion h f := { h with region := f h.region }
  tryAllocate := TwoList.Heap.tryAllocate
  release := TwoList.Heap.release
  alignment _ := 1
  hook _ := none

namespace HasRegion

variable {σ : Type} [HasRegion σ]

/-- The owner of an address in the region writes there. -/
def writeAt (address : Nat) (data : List UInt8) : Call σ Unit :=
  .update fun s => modifyRegion s fun region => region.writeAt address data

def readAt (address count : Nat) : Call σ (List UInt8) :=
  .ask fun s => .ok ((region s).readAt address count)

end HasRegion

namespace Allocator

variable {σ : Type}

/-- Runs the registered hook, if there is one, by `body`. -/
def ring (hook : σ → Option Hook) (body : Hook → Call σ Unit) : Call σ Unit := do
  match hook (← .state) with
  | some k =>
    .emit (.rang k)
    body k
  | none => return ()

/-- Runs an attempt to allocate `request` bytes. If it fails though something was asked for, the
hook is run. -/
def orHook (attempt : Call σ (Option Nat)) (hook : σ → Option Hook) (body : Hook → Call σ Unit)
    (request : Nat) : Call σ (Option Nat) := do
  match ← attempt with
  | some address => return some address
  | none =>
    if request = 0 then
      return none
    else
      ring hook body
      return none

/-- Allocates `count` times `size` bytes by `allocate` and overwrites them with zeros. There is no
memory, and nothing is run, if no word holds the number of bytes. -/
def zeroedBy [HasRegion σ] (allocate : Nat → Call σ (Option Nat)) (count size : Nat) :
    Call σ (Option Nat) := do
  match Word.mul? count size with
  | none => return none
  | some bytes =>
    match ← allocate bytes with
    | none => return none
    | some address =>
      HasRegion.writeAt address (List.replicate bytes 0)
      return some address

variable [Allocator σ]

/-- Allocates `request` bytes from a bare heap, and runs its hook if that fails. -/
def allocate (request : Nat) : Call σ (Option Nat) :=
  orHook (tryAllocate request) hook (fun _ => pure ()) request

end Allocator

namespace Tagged.Heap

/-- Allocates an array of `count` elements of `size` bytes, filled with zeros. -/
def allocateZeroed (count size : Nat) : Call Heap (Option Nat) :=
  Allocator.zeroedBy Allocator.allocate count size

/-- Registers the hook to run after a failed allocation, and gives the one registered before. -/
def onFailure (hook : Hook) : Call Heap (Option Hook) := do
  let h ← .state
  .update fun h => { h with hook := some hook }
  return h.hook

def resetLowWater : Call Heap Unit :=
  .update fun h => { h with usage := h.usage.resetLowWater }

end Tagged.Heap

end RegionAlloc
