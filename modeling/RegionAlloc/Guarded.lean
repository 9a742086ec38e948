import RegionAlloc.Allocator

/-!
# Heaps behind a lock

A guarded heap is reached through a lock that each call holds from its first to its last access. The
failure hook runs only after the lock was given back, so its body may use the heap. A call that
waits for a lock held around it would wait for ever; it faults.
-/

namespace RegionAlloc

/-- A heap and whether its lock is held. -/
structure Guarded (σ : Type) where
  heap : σ
  held : Bool

/-- What the hooks do when they run on a state. -/
abbrev HookBodies (σ : Type) := Hook → Call σ Unit

namespace Guarded

variable {σ α : Type}

def ofHeap (heap : σ) : Guarded σ :=
  { heap, held := false }

instance [HasRegion σ] : HasRegion (Guarded σ) where
  region g := HasRegion.region g.heap
  modifyRegion g f := { g with heap := HasRegion.modifyRegion g.heap f }

/-- Runs a call with the lock held. The lock is given back also when the call faults. -/
def holding (c : Call (Guarded σ) α) : Call (Guarded σ) α where
  run
    | ⟨heap, true⟩ => ⟨.error .deadlock, ⟨heap, true⟩, []⟩
    | ⟨heap, false⟩ =>
      match c.run ⟨heap, true⟩ with
      | ⟨result, ⟨heap', _⟩, events⟩ => ⟨result, ⟨heap', false⟩, events⟩

def onHeap (c : Call σ α) : Call (Guarded σ) α where
  run
    | ⟨heap, held⟩ =>
      match c.run heap with
      | ⟨result, heap', events⟩ => ⟨result, ⟨heap', held⟩, events⟩

/-- Runs a call on the heap with the lock held. -/
def locked (c : Call σ α) : Call (Guarded σ) α :=
  holding (onHeap c)

variable [Allocator σ]

def hook (g : Guarded σ) : Option Hook :=
  Allocator.hook g.heap

def alignment : Call (Guarded σ) Nat :=
  locked (.ask fun heap => .ok (Allocator.alignment heap))

/-- Allocates `request` bytes. If that fails, the hook runs after the lock was given back. -/
def allocate (body : HookBodies (Guarded σ)) (request : Nat) : Call (Guarded σ) (Option Nat) :=
  Allocator.orHook (locked (Allocator.tryAllocate request)) hook body request

/-- Allocates `request` bytes from the heap itself; a hook runs while the lock is held if it is held
around this call. -/
def allocateOnHeap (body : HookBodies (Guarded σ)) (request : Nat) :
    Call (Guarded σ) (Option Nat) :=
  Allocator.orHook (onHeap (Allocator.tryAllocate request)) hook body request

def release (address : Nat) : Call (Guarded σ) Unit :=
  locked (Allocator.release address)

end Guarded

end RegionAlloc
