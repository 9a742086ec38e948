import RegionAlloc.Proofs.Fusion
import RegionAlloc.Proofs.Tagged.Runs

/-!
# Releases of a tagged heap

Where the memory goes that a client of a tagged heap gives back. Its block comes into the free list at
its place in address order and is fused there with the free blocks that touch it, and of the other
blocks none changes (`release_fuses_in_place`).
-/

namespace RegionAlloc.Tagged

open Block

namespace Heap

variable {h h' : Heap} {b : Block} {pre post : List Block}

/-- The live block `b` of the heap was taken back and is part of the free block `whole` now. In the
range of that there is no other block, and outside of it all sizes and tags are as they were, those of
the end marker included. -/
structure TakenBack (h h' : Heap) (blocks : List Block) (b : Block) (after : List Entry)
    (whole : Entry) : Prop where
  listed : h'.freeBlocks = .ok after
  shown : ∃ blocks', h'.Shows h.start blocks' ∧
    ∀ c, c ∈ blocks' ↔ c = { whole with live := false } ∨ c ∈ blocks ∧ whole.ApartFrom 0 c.toEntry
  marked : h'.blockSize h.endMarker = .ok 0 ∧ h'.blockTag h.endMarker = .ok .free ∧
    h'.next? (.block h.endMarker) = .ok none
  gained : h'.usage.free = h.usage.free + b.size
  alike : Alike h h'

/-- Merging whatever touches fuses the block with its neighbours and leaves the others alone. -/
theorem Released.takenBack (released : Released h h' pre b post) (laid : h.Laid (pre ++ b :: post))
    (live : b.live = true) :
    ∃ after whole merges, Fused 0 b.toEntry (roster false (pre ++ b :: post)) after whole merges ∧
      TakenBack h h' (pre ++ b :: post) b after whole := by
  obtain ⟨laid', _, alike, _⟩ := released
  obtain ⟨whole, merges, fused⟩ := laid.settled.fused live laid.tiles
  have shown := laid'.shows
  have marked := laid'.endMarker_eq
  have gained := fused.sum_eq
  rw [alike.start] at shown
  rw [alike.endMarker] at marked
  rw [Nat.zero_mul, Nat.add_zero] at gained
  refine ⟨_, whole, merges, fused, laid'.freeBlocks_eq, ⟨_, shown, fun c => ?_⟩, marked, ?_, alike⟩
  · exact mem_coalesce_freed laid.tiles live fused
  · rw [laid'.counted, laid.counted]
    exact gained

end Heap

variable {region : Region} {settings : Settings} {overflow : Overflow} {h : Heap}
  {s : Client Heap} {g : Grant}

/-- **A release is exact in every reachable heap.** The memory that the client gives back has a block,
which comes into the free list at its place in address order. It is fused with the entry in front of
it just if that ends where it starts, and with the one behind it just if that starts where it ends;
the end marker is no entry, so it is never fused with. Other blocks keep their sizes and tags, and so
many bytes more count as free as the block has. Nothing stops a release. -/
theorem release_fuses_in_place (created : Heap.create region settings overflow = .ok h)
    (reached : Reached h s) (member : g ∈ s.grants) :
    ∃ blocks b, s.heap.Shows h.start blocks ∧ b ∈ blocks ∧ b.live = true ∧
      s.heap.freeBlocks = .ok (roster false blocks) ∧
      g.address = h.region.base + (b.offset + h.headerSize) ∧
      (Heap.release g.address).Ensures s.heap False fun _ heap =>
        ∃ after whole merges, Fused 0 b.toEntry (roster false blocks) after whole merges ∧
          Heap.TakenBack s.heap heap blocks b after whole := by
  obtain ⟨blocks, held⟩ := held_reached created reached
  obtain ⟨e, listed, address, _⟩ := held.backed.fits g member
  obtain ⟨pre, b, post, rfl, live, rfl⟩ := exists_parts listed
  have room := (runs_in_order created).canFree reached member
  have inside : b ∈ pre ++ b :: post := List.mem_append_right _ List.mem_cons_self
  refine ⟨_, b, held.shows, inside, live, held.laid.freeBlocks_eq, ?_, ?_⟩
  · rw [address, held.same.headerSize_eq, held.same.base]
  · rw [address]
    refine (Heap.release_live held.laid live).mono (fun full => full room) ?_
    intro _ heap released
    exact released.takenBack held.laid live

/-- The second of two live blocks is released in the middle of a run. -/
theorem release_fuses_in_place_mixedRun : ∃ (h : Heap) (s : Client Heap) (g : Grant)
    (blocks : List Block) (b : Block),
    s.grants.map (fun g => (g.address, g.length, g.stored 0))
      = [(4128, 1, none), (4160, 18, some 5)] ∧
    g ∈ s.grants ∧ s.heap.Shows h.start blocks ∧ b ∈ blocks ∧ b.live = true ∧
      s.heap.freeBlocks = .ok (roster false blocks) ∧ 4160 = h.region.base + (b.offset + h.headerSize) ∧
      (Heap.release 4160).Ensures s.heap False fun _ heap =>
        ∃ after whole merges, Fused 0 b.toEntry (roster false blocks) after whole merges ∧
          Heap.TakenBack s.heap heap blocks b after whole := by
  obtain ⟨h, s, created, reached, granted⟩ := reached_mixedRun
  have held : 4160 ∈ s.grants.map Grant.address := by
    rw [Grant.map_address_of_map granted]
    decide
  obtain ⟨g, member, place⟩ := List.mem_map.1 held
  obtain ⟨blocks, b, shown, inside, live, listed, address, ensures⟩ :=
    release_fuses_in_place created reached member
  rw [place] at address ensures
  exact ⟨h, s, g, blocks, b, granted, member, shown, inside, live, listed, address, ensures⟩

end RegionAlloc.Tagged
