import RegionAlloc.Proofs.Fusion
import RegionAlloc.Proofs.TwoList.Runs

/-!
# First fit on two lists

Which block an allocation from a two-list heap takes, and how both chains change. An allocation
succeeds just if the largest free block has as many bytes as were asked for. It takes the first one in
address order that has, and cuts it if more than a header is left over; then the rest stays on the
free chain. What was handed out comes to its place on the used chain
(`chained_allocation_is_first_fit`).
-/

namespace RegionAlloc.TwoList

open Block

namespace Heap

variable {h h' : Heap} {request : Nat} {b : Block} {pre post blocks : List Block}

/-- On the free chain `rest` took the place of `e`, which had `front` in front of it and `back`
behind it. The first `size` bytes of `e` are on the used chain now, at their place in address order,
and `spent` bytes less count as free. The chains are else as they were. -/
structure HandedOut (h h' : Heap) (front : List Entry) (e : Entry) (back : List Entry) (size : Nat)
    (rest : List Entry) (spent : Nat) : Prop where
  free : h'.entries .free = .ok (front ++ (rest ++ back))
  used : ∃ before behind, h.entries .used = .ok (before ++ behind) ∧ Between before e behind ∧
    h'.entries .used = .ok (before ++ { offset := e.offset, size } :: behind)
  spent : h'.usage.free + spent = h.usage.free

/-- The free block with the lowest address of those with at least `request` bytes was handed out, cut
if more than a header is left over. -/
structure FirstFit (h h' : Heap) (request : Nat) (front : List Entry) (e : Entry) (back : List Entry)
    (address : Nat) : Prop where
  fits : request ≤ e.size
  lowest : ∀ f ∈ front ++ e :: back, request ≤ f.size → e.offset ≤ f.offset
  place : address = h.region.base + (e.offset + 16)
  cut : request + 16 < e.size → HandedOut h h' front e back request
    [{ offset := e.offset + (16 + request), size := e.size - request - 16 }] (request + 16)
  whole : e.size ≤ request + 16 → HandedOut h h' front e back e.size [] e.size

/-- What an allocation leaves on the chains is told by the blocks that it cuts a free one into. -/
theorem Allocated.handedOut (allocated : Allocated h h' request pre b post)
    (laid : h.Laid (pre ++ b :: post)) (free : b.live = false) :
    HandedOut h h' (roster false pre) b.toEntry (roster false post) (takenSize 16 request b.size)
      (roster false (leftover 16 16 request b)) (cost 16 16 request b.size) := by
  have idle := allocated.laid.entries_eq .free
  have used := laid.entries_eq .used
  have used' := allocated.laid.entries_eq .used
  obtain ⟨_, spent, _⟩ := Usage.of_allocate allocated.counted
  rw [Chain.live, roster_false_carved] at idle
  rw [Chain.live, roster_true_of_free free] at used
  rw [Chain.live, roster_true_carved] at used'
  refine ⟨idle, ⟨_, _, used, laid.tiles.between true, used'⟩, ?_⟩
  omega

private theorem Allocated.firstFit (allocated : Allocated h h' request pre b post)
    (laid : h.Laid (pre ++ b :: post)) (free : b.live = false) (fits : request ≤ b.size)
    (first : ∀ c ∈ pre, ¬ (c.live = false ∧ request ≤ c.size)) :
    FirstFit h h' request (roster false pre) b.toEntry (roster false post)
      (h.region.base + (b.offset + 16)) := by
  have handed := allocated.handedOut laid free
  have lowest := laid.tiles.lowest first
  refine ⟨fits, ?_, rfl, ?_, ?_⟩
  · intro f member large
    rw [← roster_of_live free] at member
    obtain ⟨c, inside, idle, rfl⟩ := mem_roster.1 member
    exact lowest c inside ⟨idle, large⟩
  · intro wide
    rw [takenSize, leftover, cost, if_pos wide, if_pos wide, if_pos wide] at handed
    exact handed
  · intro narrow
    have short := Nat.not_lt.2 narrow
    rw [takenSize, leftover, cost, if_neg short, if_neg short, if_neg short] at handed
    exact handed

/-- **An allocation is first fit.** It succeeds just if the largest free block is large enough. Only a
full counter can stop it then. -/
theorem Laid.tryAllocate_first_fit (laid : h.Laid blocks) (request : Nat) :
    (tryAllocate request).Ensures h
      ((0 < request ∧ request ≤ (Survey.ofEntries (roster false blocks)).largest) ∧
        ¬ h.usage.CanAllocate h.overflow) fun place h' =>
      if 0 < request ∧ request ≤ (Survey.ofEntries (roster false blocks)).largest then
        ∃ front e back address, roster false blocks = front ++ e :: back ∧ place = some address ∧
          FirstFit h h' request front e back address
      else
        place = none ∧ h' = h := by
  by_cases nothing : request = 0
  · have fails : ¬ (0 < request ∧ request ≤ (Survey.ofEntries (roster false blocks)).largest) :=
      fun fits => absurd nothing (Nat.pos_iff_ne_zero.1 fits.1)
    simp only [if_neg fails]
    exact (tryAllocate_fails laid (Or.inl nothing)).mono False.elim fun _ _ => id
  have positive : 0 < request := Nat.pos_of_ne_zero nothing
  have found : request ≤ (Survey.ofEntries (roster false blocks)).largest ↔
      ∃ e ∈ roster false blocks, request ≤ e.size := Survey.le_largest_iff positive
  rcases exists_first (fun c => c.live = false ∧ request ≤ c.size) blocks with
    nowhere | ⟨pre, b, post, rfl, ⟨free, enough⟩, first⟩
  · have fails : ¬ (0 < request ∧ request ≤ (Survey.ofEntries (roster false blocks)).largest) := by
      intro fits
      obtain ⟨e, listed, large⟩ := found.1 fits.2
      obtain ⟨c, inside, idle, rfl⟩ := mem_roster.1 listed
      exact nowhere c inside ⟨idle, large⟩
    simp only [if_neg fails]
    exact (tryAllocate_fails laid (Or.inr nowhere)).mono False.elim fun _ _ => id
  · have listed : b.toEntry ∈ roster false (pre ++ b :: post) :=
      mem_roster.2 ⟨b, List.mem_append_right _ List.mem_cons_self, free, rfl⟩
    have fits := And.intro positive (found.2 ⟨b.toEntry, listed, enough⟩)
    simp only [if_pos fits]
    refine (tryAllocate_fits laid free positive enough first).mono (⟨fits, ·⟩) ?_
    intro place h' taken
    obtain ⟨address, allocated⟩ := taken
    exact ⟨_, b.toEntry, _, _, roster_of_live free, address, allocated.firstFit laid free enough first⟩

end Heap

variable {region : Region} {overflow : Overflow} {h : Heap} {s : Client Heap}

/-- **Allocation is exact first fit in every reachable heap of two lists.** An allocation of `request`
bytes succeeds just if something is asked for and the largest free block has as much; it takes the
first block that has, as `Heap.FirstFit` says, and changes nothing if none has. It is stopped only
where it would succeed but the number of allocations is no word any more, and sums trap. -/
theorem chained_allocation_is_first_fit (created : Heap.create region overflow = .ok h)
    (reached : Reached h s) (request : Nat) :
    ∃ free stats, s.heap.entries .free = .ok free ∧ s.heap.statistics = .ok stats ∧
      (Heap.tryAllocate request).Ensures s.heap
        ((0 < request ∧ request ≤ stats.largestFree) ∧ ¬ s.heap.usage.CanAllocate s.heap.overflow)
        fun place heap =>
          if 0 < request ∧ request ≤ stats.largestFree then
            ∃ front e back address, free = front ++ e :: back ∧ place = some address ∧
              Heap.FirstFit s.heap heap request front e back address
          else
            place = none ∧ heap = s.heap := by
  obtain ⟨blocks, held⟩ := held_reached created reached
  exact ⟨roster false blocks, _, held.laid.entries_eq .free, held.laid.statistics_eq,
    held.laid.tryAllocate_first_fit request⟩

/-- Two bytes are asked for at the end of a run, with one block live. -/
theorem chained_allocation_is_first_fit_smallRun : ∃ (s : Client Heap) (free : List Entry)
    (stats : Statistics),
    s.grants.map (fun g => (g.address, g.length, g.stored 0)) = [(4136, 3, some 9)] ∧
    s.heap.entries .free = .ok free ∧ s.heap.statistics = .ok stats ∧
      (Heap.tryAllocate 2).Ensures s.heap
        ((0 < 2 ∧ 2 ≤ stats.largestFree) ∧ ¬ s.heap.usage.CanAllocate s.heap.overflow)
        fun place heap =>
          if 0 < 2 ∧ 2 ≤ stats.largestFree then
            ∃ front e back address, free = front ++ e :: back ∧ place = some address ∧
              Heap.FirstFit s.heap heap 2 front e back address
          else
            place = none ∧ heap = s.heap := by
  obtain ⟨h, s, created, reached, granted⟩ := reached_smallRun
  obtain ⟨free, stats, listed, told, ensures⟩ := chained_allocation_is_first_fit created reached 2
  exact ⟨s, free, stats, granted, listed, told, ensures⟩

end RegionAlloc.TwoList
