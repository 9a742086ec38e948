import RegionAlloc.Proofs.Fusion
import RegionAlloc.Proofs.TwoList.Runs

/-!
# Releases into two lists

A block that a client of a two-list heap gives back goes from the used chain to its place on the free
chain, where it is fused with the free blocks that touch it; nothing else on the chains changes
(`chained_release_fuses_in_place`). Any other address is logged and changes nothing
(`foreign_release_ignored`).
-/

namespace RegionAlloc.TwoList

open Block

namespace Heap

variable {h h' : Heap} {b : Block} {pre post : List Block}

/-- The block `e`, which had `before` in front of it on the used chain and `behind` behind it, went
over to the free chain, which is `after` now. The headers between the `merges + 1` blocks that it is
made of count as free as well. -/
structure TakenBack (h h' : Heap) (before : List Entry) (e : Entry) (behind after : List Entry)
    (merges : Nat) : Prop where
  free : h'.entries .free = .ok after
  used : h'.entries .used = .ok (before ++ behind)
  gained : h'.usage.free = h.usage.free + (e.size + 16 * merges)

/-- The pass over the free chain merges the block with its neighbours there and nothing else. -/
theorem Released.takenBack (released : Released h h' pre b post) (laid : h.Laid (pre ++ b :: post))
    (live : b.live = true) :
    ∃ after whole merges, Fused 16 b.toEntry (roster false (pre ++ b :: post)) after whole merges ∧
      TakenBack h h' (roster true pre) b.toEntry (roster true post) after merges := by
  have laid' := released.laid
  obtain ⟨whole, merges, fused⟩ := laid.settled.fused live laid.tiles
  have used := laid'.entries_eq .used
  have gained := fused.sum_eq
  rw [Chain.live, roster_true_coalesce, roster_true_freed] at used
  refine ⟨_, whole, merges, fused, laid'.entries_eq .free, used, ?_⟩
  rw [laid'.counted, laid.counted]
  exact gained

end Heap

variable {region : Region} {overflow : Overflow} {h : Heap} {s : Client Heap} {g : Grant}

/-- **A release is exact in every reachable heap of two lists.** The memory that the client gives back
has a block on the used chain, which loses just that one. The block comes to its place in address
order on the free chain. It is fused with the block in front of it just if that ends where it starts,
and with the one behind it just if that starts where it ends; all else on the free chain stays. So
many bytes more count as free as the block has, and sixteen for each fusion. Nothing stops a
release. -/
theorem chained_release_fuses_in_place (created : Heap.create region overflow = .ok h)
    (reached : Reached h s) (member : g ∈ s.grants) :
    ∃ free before e behind, s.heap.entries .free = .ok free ∧
      s.heap.entries .used = .ok (before ++ e :: behind) ∧
      g.address = region.base + (e.offset + 16) ∧
      (Heap.release g.address).Ensures s.heap False fun _ heap =>
        ∃ after whole merges, Fused 16 e free after whole merges ∧
          Heap.TakenBack s.heap heap before e behind after merges := by
  obtain ⟨blocks, laid, backed, base, _⟩ := held_reached created reached
  obtain ⟨e, listed, address, _⟩ := backed.fits g member
  obtain ⟨pre, b, post, rfl, live, rfl⟩ := exists_parts listed
  have room := (runs_in_order created).canFree reached member
  have used := laid.entries_eq .used
  rw [Chain.live, roster_of_live live] at used
  refine ⟨_, _, b.toEntry, _, laid.entries_eq .free, used, ?_, ?_⟩
  · rw [address, base]
  · rw [address]
    refine (Heap.release_live laid live).mono (fun full => full room) ?_
    intro _ heap released
    exact released.takenBack laid live

/-- The last live block is released at the end of a run. -/
theorem chained_release_fuses_in_place_smallRun : ∃ (s : Client Heap) (g : Grant)
    (free before : List Entry) (e : Entry) (behind : List Entry),
    s.grants.map (fun g => (g.address, g.length, g.stored 0)) = [(4136, 3, some 9)] ∧
    g ∈ s.grants ∧ s.heap.entries .free = .ok free ∧
      s.heap.entries .used = .ok (before ++ e :: behind) ∧ 4136 = 4099 + (e.offset + 16) ∧
      (Heap.release 4136).Ensures s.heap False fun _ heap =>
        ∃ after whole merges, Fused 16 e free after whole merges ∧
          Heap.TakenBack s.heap heap before e behind after merges := by
  obtain ⟨h, s, created, reached, granted⟩ := reached_smallRun
  have listed : 4136 ∈ s.grants.map Grant.address := by
    rw [Grant.map_address_of_map granted]
    decide
  obtain ⟨g, member, place⟩ := List.mem_map.1 listed
  obtain ⟨free, before, e, behind, chained, used, address, ensures⟩ :=
    chained_release_fuses_in_place created reached member
  rw [place] at address ensures
  exact ⟨s, g, free, before, e, behind, granted, member, chained, used, address, ensures⟩

/-- **A release of what is not live does nothing**, whatever the client wrote into its memory. The
address may be null, lie outside of the region, in a header or in the middle of a block, or have been
released before: as long as the client does not hold it, the call returns and logs a warning, and no
byte, no chain and no counter changes. -/
theorem foreign_release_ignored (created : Heap.create region overflow = .ok h)
    (reached : Reached h s) {address : Nat} (foreign : address ∉ s.grants.map Grant.address) :
    (Heap.release address).run s.heap = ⟨.ok (), s.heap, [.logged (.twoList
      (if region.base + 16 ≤ address ∧ address < region.base + region.size then
        .unknown address else .outside address))]⟩ := by
  obtain ⟨blocks, laid, backed, base, size⟩ := held_reached created reached
  have unlisted : ∀ e ∈ roster true blocks, address ≠ s.heap.region.base + (e.offset + 16) := by
    intro e listed place
    exact foreign (backed.mem_addresses.2 ⟨e, listed, place⟩)
  have run := Heap.run_release_foreign laid unlisted
  rw [base, size] at run
  exact run

/-- The block at this address was released before, and a free block is still there. -/
theorem foreign_release_ignored_smallRun : ∃ s : Client Heap,
    s.grants.map (fun g => (g.address, g.length, g.stored 0)) = [(4136, 3, some 9)] ∧
    4115 ∉ s.grants.map Grant.address ∧
    (Heap.release 4115).run s.heap =
      ⟨.ok (), s.heap, [.logged (.twoList (.unknown 4115))]⟩ := by
  obtain ⟨h, s, created, reached, granted⟩ := reached_smallRun
  have foreign : 4115 ∉ s.grants.map Grant.address := by
    rw [Grant.map_address_of_map granted]
    decide
  exact ⟨s, granted, foreign, foreign_release_ignored created reached foreign⟩

end RegionAlloc.TwoList
