import RegionAlloc.Proofs.ReleaseOrder
import RegionAlloc.Proofs.Tagged.FirstFit

/-!
# Allocation on the picture

`Picture` says what a release makes of the blocks that a heap is pictured as. Here the same is said of
an allocation: a request needs so many bytes, and takes them from the first free block that has as
many (`Picture.Allots`). The two kinds of heap differ in what a request needs, in the gap between
blocks, and in how much must be left over for a block to be cut.
-/

namespace RegionAlloc

open Block

namespace Picture

section Allotments

variable {σ μ : Type} [Allocator σ] [Managed σ μ]

/-- How a request that needs `need` bytes is answered by a heap pictured as `blocks`: by the first
free block with as many, which is cut if more than `slack` bytes are left over, or not at all. -/
inductive Allotment (p : Picture σ) (need slack request : Nat) (heap : σ) (blocks : List Block) :
    Option Nat → σ → Prop
  | refused (nowhere : request = 0 ∨ ∀ c ∈ blocks, ¬ (c.live = false ∧ need ≤ c.size)) :
      Allotment p need slack request heap blocks none heap
  | granted {pre post : List Block} {b : Block} {heap' : σ} (parts : blocks = pre ++ b :: post)
      (free : b.live = false) (fits : need ≤ b.size)
      (first : ∀ c ∈ pre, ¬ (c.live = false ∧ need ≤ c.size))
      (lies : p.Lies heap' (pre ++ (carve p.gap slack need b ++ post)))
      (overflow : Managed.overflow heap' = Managed.overflow heap)
      (counted : (Managed.usage heap).allocate (cost p.gap slack need b.size)
        (Managed.overflow heap) = .ok (Managed.usage heap')) :
      Allotment p need slack request heap blocks (some (p.place b.toEntry)) heap'

/-- Each request for so many bytes needs `need` of them, and is answered by first fit. -/
def Allots (p : Picture σ) (need : Nat → Nat) (slack : Nat) : Prop :=
  ∀ {heap : σ} {blocks : List Block} (request : Nat), p.Lies heap blocks →
    (Allocator.tryAllocate request : Call σ (Option Nat)).Ensures heap
      (¬ (Managed.usage heap).CanAllocate (Managed.overflow heap))
      (p.Allotment (need request) slack request heap blocks)

end Allotments

end Picture

namespace Tagged

/-- A tagged heap needs room for a header, rounded up to the alignment. A block has no gap to the
next one, and is cut if more than two headers are left over. -/
theorem allots (h : Heap) : (picture h).Allots
    (fun request => Word.roundUp (request + h.headerSize) h.settings.alignment) h.splitLimit := by
  intro heap blocks request lies
  obtain ⟨laid, same⟩ := lies
  have valid := laid.formed.valid
  have needs := Settings.needs_roundUp valid request
  have limit : heap.splitLimit = h.splitLimit := congrArg (2 * ·) same.headerSize_eq
  rw [same.settings] at needs valid
  apply (Heap.tryAllocate_ensures laid request).mono id
  intro place heap' allocation
  cases allocation with
  | refused nowhere =>
    apply Picture.Allotment.refused
    apply nowhere.imp_right
    intro none_padded c member both
    have small : c.size < 0x8000000000000000 := by
      have bound : heap.region.size < 0x8000000000000000 := heap.region.sizeLt
      have inside := laid.inside
      have high := (laid.room member).1
      omega
    rw [same.settings] at none_padded
    exact none_padded _ (needs.paddedSize? valid (Nat.lt_of_le_of_lt both.2 small)) c member both
  | @granted pre post b padded _ parts free padding fits first allocated =>
    rw [same.settings] at padding
    obtain rfl := needs.eq_of_paddedSize? valid padding
    have counted := allocated.counted
    have left := allocated.laid
    rw [limit] at counted left
    rw [same.base, same.headerSize_eq]
    exact .granted parts free fits first
      ⟨left, same.of_alike allocated.alike allocated.region.sameBase⟩ allocated.alike.overflow counted

end Tagged

namespace TwoList

/-- A two-list heap needs what was asked for. A block has a header of its own as its gap to the one
before it, and is cut if more than a header is left over. -/
theorem allots (region : Region) : (picture region).Allots (fun request => request) 16 := by
  intro heap blocks request lies
  obtain ⟨laid, base, size⟩ := lies
  apply (Heap.tryAllocate_ensures laid request).mono id
  intro place heap' allocation
  cases allocation with
  | refused nowhere => exact .refused nowhere
  | @granted pre post b _ parts free fits first allocated =>
    have agrees := allocated.region
    rw [base]
    exact .granted parts free fits first
      ⟨allocated.laid, agrees.sameBase.trans base, agrees.sameSize.trans size⟩ allocated.overflow
      allocated.counted

end TwoList

end RegionAlloc
