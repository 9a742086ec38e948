import RegionAlloc.Typed
import RegionAlloc.Usage

/-!
# Commands and replies of a client session

A client keeps every pointer it was given, numbered from zero, and names them by number in its
commands. A pointer is known with where it came from, which decides how it is written.
-/

namespace RegionAlloc.Session

/-- An address with where it came from. -/
inductive Pointer where
  /-- Derived from the region: a signed distance from its first byte. -/
  | inRegion (distance : Int)
  | absolute (address : Nat)
  deriving DecidableEq, Repr

namespace Pointer

def null : Pointer :=
  .absolute 0

/-- The address itself, for a region at `base`. Addresses wrap around at the largest word. -/
def address (base : Nat) : Pointer → Nat
  | .inRegion distance => ((base + distance) % (0x10000000000000000 : Nat)).toNat
  | .absolute address => address

def text : Pointer → String
  | .inRegion distance =>
    if 0 ≤ distance then s!"arena+{distance.natAbs}" else s!"arena-{distance.natAbs}"
  | .absolute address => hexText address

end Pointer

/-- How a release names what it gives back. -/
inductive Target where
  | kept (number : Nat)
  | direct (pointer : Pointer)
  deriving DecidableEq, Repr

/-- How a second typed handle comes about. -/
inductive Derivation where
  | rebound
  /-- Made anew from the heap of the first. -/
  | remade
  /-- Copied, then bound to another element type. -/
  | copied
  | foreign
  deriving DecidableEq, Repr

/-- What a client can ask for. -/
inductive Command where
  /-- Allocate, and run the hook if that fails. -/
  | allocate (request : Nat)
  /-- Allocate from the heap itself, with the lock held around the hook too. -/
  | allocateOnHeap (request : Nat)
  /-- Allocate without a hook. -/
  | tryAllocate (request : Nat)
  /-- Allocate zeroed memory for an array, with the lock held around the hook too. -/
  | allocateZeroed (count size : Nat)
  | release (target : Target)
  /-- Write a byte many times from a pointer on. -/
  | fill (number : Nat) (value : UInt8) (count : Nat)
  | poke (offset : Nat) (data : List UInt8)
  | peek (offset count : Nat)
  | hasHook
  | onFailure (hook : Hook)
  | alignment
  | freeBytes
  | lowWater
  | resetLowWater
  | statistics
  | describeStatistics
  | isSound
  | allocateLayout (size align : Nat)
  | allocateLayoutZeroed (size align : Nat)
  | releaseLayout (number size align : Nat)
  /-- Move the memory of a layout to another size. -/
  | reallocateLayout (number size align newSize : Nat)
  | allocateArray (element : Element) (count : Nat)
  | releaseArray (number : Nat) (element : Element) (count : Nat)
  | compareHandles (first second : Element) (derivation : Derivation)
  | describeHandle (element : Element)

/-- What a command answers. -/
inductive Reply where
  | nothing
  /-- Where memory was allocated, as an offset, if it was. -/
  | place (offset : Option Int)
  | number (n : Nat)
  | flag (b : Bool)
  | hook (previous : Option Hook)
  | bytes (data : List UInt8)
  | statistics (s : Statistics)
  | listing (fields : List (String × String))
  /-- An array without bytes, with its boundary. -/
  | dangling (align : Nat)
  | typedError (error : TypedError)
  | handle (t : TypedHandle)
  /-- Whether two handles are equal, the other way round too, and whether they share a heap. -/
  | comparison (equal swapped shared : Bool)
  | outOfRange
  | noLayout
  | unknownPointer
  | unsupported

/-- A reply, and the pointer that the session keeps from now on. -/
structure Answer where
  reply : Reply
  kept : Option Pointer := none

end RegionAlloc.Session
