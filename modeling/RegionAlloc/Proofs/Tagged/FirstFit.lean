import Mathlib.Order.Bounds.Defs
import RegionAlloc.Proofs.Tagged.Runs

/-!
# First fit

Which block an allocation from a tagged heap takes, and what it makes of the free list. A block for a
request needs so many bytes: the least multiple of the alignment that has room for the header and for
what was asked for. An allocation succeeds just if the largest free block has as many. It takes the
first one in address order that has, and cuts it if more than two headers are left over
(`tryAllocate_is_first_fit`).
-/

namespace RegionAlloc.Tagged

open Block Region

variable {need request : Nat}

namespace Settings

variable {s : Settings}

/-- A block for a request needs this many bytes. -/
def Needs (s : Settings) (request need : Nat) : Prop :=
  IsLeast {n | s.alignment ∣ n ∧ request + s.headerSize ≤ n} need

/-- The padded size of a request is what it needs. -/
theorem needs_roundUp (valid : s.Valid) (request : Nat) :
    s.Needs request (Word.roundUp (request + s.headerSize) s.alignment) := by
  constructor
  · exact ⟨Word.dvd_roundUp valid.alignment_pos _, Word.le_roundUp _ _⟩
  · intro n bounds
    exact Word.roundUp_le bounds.1 bounds.2

/-- No request needs nothing. -/
theorem Needs.pos (needs : s.Needs request need) : 0 < need := by
  have header := s.sixteen_le_headerSize
  have covers := needs.1.2
  omega

/-- A size below the tag bit is what the request is padded to. -/
theorem Needs.paddedSize? (needs : s.Needs request need) (valid : s.Valid)
    (small : need < 0x8000000000000000) : s.paddedSize? request = some need := by
  obtain rfl := (needs_roundUp valid request).unique needs
  have covers := Word.le_roundUp (request + s.headerSize) s.alignment
  have sum : Word.add? request s.headerSize = some (request + s.headerSize) :=
    Word.ofNat?_eq_some.2 ⟨rfl, by omega⟩
  have rounded : Word.roundUp? (request + s.headerSize) s.alignment
      = some (Word.roundUp (request + s.headerSize) s.alignment) :=
    Word.ofNat?_eq_some.2 ⟨rfl, by omega⟩
  rw [Settings.paddedSize?, sum, Option.bind_some, rounded]
  exact Option.filter_some_pos (decide_eq_true small)

/-- A request is padded to nothing else. -/
theorem Needs.eq_of_paddedSize? (needs : s.Needs request need) (valid : s.Valid) {padded : Nat}
    (padding : s.paddedSize? request = some padded) : padded = need := by
  obtain ⟨rounded, small⟩ := Option.filter_eq_some_iff.1 padding
  obtain ⟨sum, added, up⟩ := Option.bind_eq_some_iff.1 rounded
  obtain ⟨rfl, _⟩ := Word.ofNat?_eq_some.1 added
  obtain ⟨rfl, _⟩ := Word.ofNat?_eq_some.1 up
  exact (needs_roundUp valid request).unique needs

end Settings

namespace Heap

variable {h h' : Heap} {address : Nat} {b : Block} {pre post blocks : List Block}

/-- Of the free block `b` the first `size` bytes became a live block, and `rest` took the place of `b`
in the free list. The free list, the sizes and the tags are else as they were, and so is how the heap
is set up. -/
structure HandedOut (h h' : Heap) (pre : List Block) (b : Block) (post : List Block) (size : Nat)
    (rest : List Entry) : Prop where
  shown : h'.Shows h.start (pre ++ { offset := b.offset, size, live := true } ::
    (rest.map (fun e => { e with live := false }) ++ post))
  listed : h'.freeBlocks = .ok (roster false pre ++ (rest ++ roster false post))
  spent : h'.usage.free + size = h.usage.free
  alike : Alike h h'

/-- The free block with the lowest address of those with at least `need` bytes was handed out, cut if
more than two headers are left over. -/
structure FirstFit (h h' : Heap) (need : Nat) (pre : List Block) (b : Block) (post : List Block)
    (address : Nat) : Prop where
  free : b.live = false
  fits : need ≤ b.size
  lowest : ∀ c ∈ pre ++ b :: post, c.live = false → need ≤ c.size → b.offset ≤ c.offset
  place : address = h.region.base + (b.offset + h.headerSize)
  cut : 2 * h.headerSize < b.size - need →
    HandedOut h h' pre b post need [{ offset := b.offset + need, size := b.size - need }]
  whole : b.size - need ≤ 2 * h.headerSize → HandedOut h h' pre b post b.size []

/-- What an allocation leaves is told by the blocks that it cuts a free one into. -/
theorem Allocated.handedOut {size : Nat} {rest : List Entry}
    (allocated : Allocated h h' need pre b post)
    (pieces : carve 0 h.splitLimit need b = { offset := b.offset, size, live := true } ::
      rest.map fun e => { e with live := false }) :
    HandedOut h h' pre b post size rest := by
  obtain ⟨laid, _, alike, counted⟩ := allocated
  obtain ⟨first, _⟩ := List.cons.inj pieces
  have taken_size : takenSize h.splitLimit need b.size = size := congrArg (fun c => c.size) first
  obtain ⟨enough, spent, _⟩ := Usage.of_allocate counted
  have shown := laid.shows
  have listed := laid.freeBlocks_eq
  have idle : roster false (rest.map fun e => ({ e with live := false } : Block)) = rest := by
    simp [roster, List.filter_map, Function.comp_def]
  rw [alike.start, pieces] at shown
  rw [pieces] at listed
  refine ⟨shown, ?_, ?_, alike⟩
  · rw [listed]
    simp [roster_cons, idle]
  · rw [spent, ← taken_size]
    omega

private theorem Allocated.firstFit (allocated : Allocated h h' need pre b post)
    (laid : h.Laid (pre ++ b :: post)) (free : b.live = false) (fits : need ≤ b.size)
    (first : ∀ c ∈ pre, ¬ (c.live = false ∧ need ≤ c.size)) :
    FirstFit h h' need pre b post (h.region.base + (b.offset + h.headerSize)) := by
  have limit : h.splitLimit = 2 * h.headerSize := rfl
  have lowest := laid.tiles.lowest first
  refine ⟨free, fits, fun c member idle large => lowest c member ⟨idle, large⟩, rfl, ?_, ?_⟩
  · intro wide
    apply allocated.handedOut
    rw [carve_of_lt (by omega)]
    simp only [Block.rest, Nat.zero_add, Nat.sub_zero, List.map_cons, List.map_nil]
  · intro narrow
    exact allocated.handedOut (carve_of_le (by omega))

/-- **An allocation is first fit.** It succeeds just if the largest free block has room for what the
request needs. Only a full counter can stop it then. -/
theorem Laid.tryAllocate_first_fit (laid : h.Laid blocks)
    (needs : h.settings.Needs request need) :
    (tryAllocate request).Ensures h
      ((0 < request ∧ need ≤ (Survey.ofEntries (roster false blocks)).largest) ∧
        ¬ h.usage.CanAllocate h.overflow) fun place h' =>
      if 0 < request ∧ need ≤ (Survey.ofEntries (roster false blocks)).largest then
        ∃ pre b post address, blocks = pre ++ b :: post ∧ place = some address ∧
          FirstFit h h' need pre b post address
      else
        place = none ∧ h' = h := by
  have valid := laid.formed.valid
  have found : need ≤ (Survey.ofEntries (roster false blocks)).largest ↔
      ∃ e ∈ roster false blocks, need ≤ e.size := Survey.le_largest_iff needs.pos
  by_cases fits : 0 < request ∧ need ≤ (Survey.ofEntries (roster false blocks)).largest
  · simp only [if_pos fits]
    obtain ⟨e, listed, large⟩ := found.1 fits.2
    obtain ⟨c, inside, idle, rfl⟩ := mem_roster.1 listed
    rcases exists_first (fun c => c.live = false ∧ need ≤ c.size) blocks with
      nowhere | ⟨pre, b, post, rfl, ⟨free, enough⟩, first⟩
    · exact absurd ⟨idle, large⟩ (nowhere c inside)
    have limit : h.region.size < 0x8000000000000000 := h.region.sizeLt
    have within := laid.inside
    have member : b ∈ pre ++ b :: post := List.mem_append_right _ List.mem_cons_self
    obtain ⟨high, _, _⟩ := laid.room member
    have padding := needs.paddedSize? valid (by omega)
    refine (tryAllocate_fits laid free fits.1 padding enough first).mono (⟨fits, ·⟩) ?_
    intro place h' taken
    obtain ⟨address, allocated⟩ := taken
    exact ⟨pre, b, post, _, rfl, address, allocated.firstFit laid free enough first⟩
  · simp only [if_neg fits]
    have nowhere : request = 0 ∨ ∀ padded, h.settings.paddedSize? request = some padded →
        ∀ c ∈ blocks, ¬ (c.live = false ∧ padded ≤ c.size) := by
      by_cases nothing : request = 0
      · exact Or.inl nothing
      apply Or.inr
      intro padded padding c member both
      obtain rfl := needs.eq_of_paddedSize? valid padding
      have listed : c.toEntry ∈ roster false blocks := mem_roster.2 ⟨c, member, both.1, rfl⟩
      exact fits ⟨Nat.pos_of_ne_zero nothing, found.2 ⟨c.toEntry, listed, both.2⟩⟩
    exact (tryAllocate_fails laid nowhere).mono False.elim fun _ _ => id

end Heap

variable {region : Region} {settings : Settings} {overflow : Overflow} {h : Heap}
  {s : Client Heap}

/-- **Allocation is exact first fit in every reachable heap.** An allocation of `request` bytes
succeeds just if something is asked for and the largest free block has the `need` bytes for it; it
takes the first block that has, as `Heap.FirstFit` says, and changes nothing if none has. It is stopped
only where it would succeed but the number of allocations is no word any more, and sums trap. -/
theorem allocation_is_first_fit (created : Heap.create region settings overflow = .ok h)
    (reached : Reached h s) (needs : settings.Needs request need) :
    ∃ blocks stats, s.heap.Shows h.start blocks ∧ s.heap.freeBlocks = .ok (roster false blocks) ∧
      s.heap.statistics = .ok stats ∧
      (Heap.tryAllocate request).Ensures s.heap
        ((0 < request ∧ need ≤ stats.largestFree) ∧ ¬ s.heap.usage.CanAllocate s.heap.overflow)
        fun place heap =>
          if 0 < request ∧ need ≤ stats.largestFree then
            ∃ pre b post address, blocks = pre ++ b :: post ∧ place = some address ∧
              Heap.FirstFit s.heap heap need pre b post address
          else
            place = none ∧ heap = s.heap := by
  obtain ⟨blocks, held⟩ := held_reached created reached
  obtain ⟨_, _, _, _, set⟩ := Heap.laid_create created
  rw [← set, ← held.same.settings] at needs
  exact ⟨blocks, _, held.shows, held.laid.freeBlocks_eq, held.laid.statistics_eq,
    held.laid.tryAllocate_first_fit needs⟩

/-- One byte needs a header and one more unit. -/
theorem clearing_needs : clearing.Needs 1 32 :=
  Settings.needs_roundUp (by decide) 1

/-- One byte is asked for in the middle of a run, with two blocks live. -/
theorem allocation_is_first_fit_mixedRun : ∃ (h : Heap) (s : Client Heap) (blocks : List Block)
    (stats : Statistics),
    s.grants.map (fun g => (g.address, g.length, g.stored 0))
      = [(4128, 1, none), (4160, 18, some 5)] ∧
    s.heap.Shows h.start blocks ∧ s.heap.statistics = .ok stats ∧
      (Heap.tryAllocate 1).Ensures s.heap
        ((0 < 1 ∧ 32 ≤ stats.largestFree) ∧ ¬ s.heap.usage.CanAllocate s.heap.overflow)
        fun place heap =>
          if 0 < 1 ∧ 32 ≤ stats.largestFree then
            ∃ pre b post address, blocks = pre ++ b :: post ∧ place = some address ∧
              Heap.FirstFit s.heap heap 32 pre b post address
          else
            place = none ∧ heap = s.heap := by
  obtain ⟨h, s, created, reached, granted⟩ := reached_mixedRun
  obtain ⟨blocks, stats, shown, _, told, ensures⟩ :=
    allocation_is_first_fit created reached clearing_needs
  exact ⟨h, s, blocks, stats, granted, shown, told, ensures⟩

end RegionAlloc.Tagged
