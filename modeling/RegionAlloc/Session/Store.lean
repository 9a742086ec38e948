import RegionAlloc.Allocator
import RegionAlloc.Tagged.Audit
import RegionAlloc.Tagged.Create
import RegionAlloc.TwoList.Audit

/-!
# A heap of either kind

Clients that are served by a tagged heap or by a two-list heap see one allocator.
-/

namespace RegionAlloc

inductive Store where
  | tagged (heap : Tagged.Heap)
  | twoList (heap : TwoList.Heap)

namespace Store

variable {α : Type}

/-- Runs the call for the kind of heap that is there. -/
def byKind (onTagged : Call Tagged.Heap α) (onTwoList : Call TwoList.Heap α) : Call Store α where
  run
    | .tagged heap =>
      match onTagged.run heap with
      | ⟨result, heap', events⟩ => ⟨result, .tagged heap', events⟩
    | .twoList heap =>
      match onTwoList.run heap with
      | ⟨result, heap', events⟩ => ⟨result, .twoList heap', events⟩

/-- Runs a call that only tagged heaps know. -/
def onTagged (c : Call Tagged.Heap α) : Call Store (Option α) :=
  byKind (some <$> c) (return none)

instance : Allocator Store where
  region
    | .tagged heap => heap.region
    | .twoList heap => heap.region
  modifyRegion
    | .tagged heap, f => .tagged { heap with region := f heap.region }
    | .twoList heap, f => .twoList { heap with region := f heap.region }
  tryAllocate request :=
    byKind (Allocator.tryAllocate request) (Allocator.tryAllocate request)
  release address := byKind (Allocator.release address) (Allocator.release address)
  alignment
    | .tagged heap => Allocator.alignment heap
    | .twoList heap => Allocator.alignment heap
  hook
    | .tagged heap => Allocator.hook heap
    | .twoList heap => Allocator.hook heap

def usage : Store → Usage
  | .tagged heap => heap.usage
  | .twoList heap => heap.usage

def statistics : Store → Except Fault Statistics
  | .tagged heap => heap.statistics
  | .twoList heap => heap.statistics

def isSound : Store → Except Fault Bool
  | .tagged heap => heap.isSound
  | .twoList heap => heap.isSound

def creationRecord : Store → Record
  | .tagged heap => heap.creationRecord
  | .twoList heap => heap.creationRecord

end Store

end RegionAlloc
