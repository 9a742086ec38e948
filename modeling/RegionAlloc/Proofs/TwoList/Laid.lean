import RegionAlloc.Proofs.Coalesce
import RegionAlloc.Proofs.Counting
import RegionAlloc.Proofs.TwoList.Chains

/-!
# How a two-list heap lies in its region

`Heap.Laid` ties the three views of a two-list heap together: the blocks that tile the region, the
two chains of headers, and the counter of free bytes. It holds of a new heap (`laid_create`), and of
a heap so laid out the audit finds nothing wrong (`Laid.isSound`).
-/

namespace RegionAlloc.TwoList

/-- Whether the blocks on a chain are live. -/
def Chain.live : Chain → Bool
  | .free => false
  | .used => true

namespace Heap

open Block Region

variable {h : Heap} {blocks : List Block} {b : Block} {chain : Chain}

/-- The heap is laid out as these blocks: they tile the region, none is empty, no two free ones
follow one another, the live ones are on the used chain and the others on the free chain, and as
many bytes count as free as the free blocks have. -/
structure Laid (h : Heap) (blocks : List Block) : Prop where
  tiles : Tiles 16 0 blocks h.region.size
  positive : ∀ b ∈ blocks, 0 < b.size
  settled : Settled blocks
  leads : ∀ chain : Chain, h.Leads chain (roster chain.live blocks) none
  counted : h.usage.free = freeBytes blocks

/-- The blocks of one kind are spread over the region. -/
theorem Laid.spread (laid : h.Laid blocks) (live : Bool) :
    Spread 16 h.region.size (roster live blocks) :=
  laid.tiles.spread_roster live

/-- A block lies in the region with its header. -/
theorem Laid.room (laid : h.Laid blocks) (member : b ∈ blocks) :
    b.offset + 16 + b.size ≤ h.region.size := by
  have := laid.tiles.le_stop member
  omega

private theorem Laid.freeBytes_le (laid : h.Laid blocks) : freeBytes blocks ≤ h.region.size := by
  have := laid.tiles.sum_eq
  unfold freeBytes
  omega

/-- The bytes of one more block can be counted as free. -/
theorem Laid.free_add_lt (laid : h.Laid blocks) (member : b ∈ blocks) :
    h.usage.free + b.size < 0x10000000000000000 := by
  have limit : h.region.size < 0x8000000000000000 := h.region.sizeLt
  have := laid.freeBytes_le
  have := laid.counted
  have := laid.room member
  omega

/-- A free block is no larger than what counts as free. -/
theorem Laid.size_le_free {pre post : List Block} (laid : h.Laid (pre ++ b :: post))
    (free : b.live = false) : b.size ≤ h.usage.free := by
  rw [laid.counted, freeBytes_append, freeBytes_cons, free]
  simp only [Bool.false_eq_true, if_false]
  omega

/-- The chains read back as the entries that they lead through. -/
theorem Laid.entries_eq (laid : h.Laid blocks) (chain : Chain) :
    h.entries chain = .ok (roster chain.live blocks) :=
  entries_of_leads (laid.leads chain) (laid.spread chain.live).length_le

/-- A heap with other bytes outside of all headers is laid out the same way. -/
theorem Laid.of_agreesOff {r : Region} {changed : Set Nat} (laid : h.Laid blocks)
    (agrees : AgreesOff changed h.region r)
    (outside : ∀ b ∈ blocks, ∀ i, b.offset ≤ i → i < b.offset + 16 → i ∉ changed) :
    Laid { h with region := r } blocks where
  tiles := by
    rw [show ({ h with region := r } : Heap).region.size = h.region.size from agrees.sameSize]
    exact laid.tiles
  positive := laid.positive
  settled := laid.settled
  leads chain := by
    obtain ⟨head, chained⟩ := laid.leads chain
    refine ⟨?_, chained.agreesOff agrees ?_⟩
    · rw [← head]
      cases chain <;> rfl
    · intro e member
      obtain ⟨b, inside, _, rfl⟩ := mem_roster.1 member
      exact outside b inside
  counted := laid.counted

/-! ## A new heap -/

/-- A region with room for a header and a byte can be laid out as one free block. -/
theorem laid_create {region : Region} (overflow : Overflow)
    (large : requiredSize ≤ region.size) :
    ∃ h, create region overflow = .ok h ∧
      h.Laid [{ offset := 0, size := region.size - 16, live := false }] ∧
      h.region.base = region.base ∧ h.region.size = region.size ∧ h.overflow = overflow := by
  refine ⟨_, if_neg (Nat.not_lt.2 large), ?_, ?_, ?_, rfl⟩
  · have limit := region.sizeLt
    have wide : 17 ≤ region.size := large
    have size : ((region.writeWord 0 Word.nil).writeWord 8 (region.size - headerSize)).size
        = region.size := by simp
    have next : ((region.writeWord 0 Word.nil).writeWord 8 (region.size - headerSize)).readWord 0
        = Word.nil := by
      rw [readWord_writeWord_of_disjoint _ (by omega)]
      exact region.readWord_writeWord (by decide) (by omega)
    have usable : ((region.writeWord 0 Word.nil).writeWord 8 (region.size - headerSize)).readWord
        (0 + 8) = region.size - 16 := by
      refine readWord_writeWord _ ?_ ?_
      · unfold Region.size headerSize
        omega
      · rw [size_writeWord]
        omega
    refine ⟨⟨rfl, ?_, ?_⟩, ?_, List.IsChain.singleton _, ?_, ?_⟩
    · change 16 ≤ 16 + (region.size - 16)
      omega
    · change 0 + (16 + (region.size - 16)) = _
      rw [size]
      omega
    · intro b member
      obtain rfl := List.mem_singleton.1 member
      change 0 < region.size - 16
      omega
    · intro chain
      cases chain
      · refine ⟨rfl, ?_, next, usable, trivial⟩
        change 0 + 16 ≤ _
        rw [size]
        omega
      · exact ⟨rfl, trivial⟩
    · rfl
  · simp
  · simp

/-- A heap is created only in a region that is large enough, and nobody has used it yet. -/
theorem usage_of_create {region : Region} {overflow : Overflow}
    (created : create region overflow = .ok h) :
    requiredSize ≤ region.size ∧ ∃ n, h.usage = Usage.start n := by
  unfold create at created
  by_cases small : region.size < requiredSize
  · rw [if_pos small] at created
    cases created
  · rw [if_neg small] at created
    obtain rfl := Except.ok.inj created
    exact ⟨Nat.not_lt.1 small, _, rfl⟩

/-! ## The audit -/

/-- The statistics are those of the free blocks and of the counters. -/
theorem Laid.statistics_eq (laid : h.Laid blocks) :
    h.statistics = .ok (.ofSurvey (.ofEntries (roster false blocks)) h.usage) := by
  rw [statistics, laid.entries_eq .free]
  rfl

/-- The total is that of whole numbers if it is found to be less than the largest word: a sum that
stopped there makes it larger. -/
theorem totalBytes?_eq_some_iff {used free : List Entry} {n : Nat} (below : n < Word.nil) :
    totalBytes? used free = some n ↔
      16 * (used.length + free.length) + (used.map Entry.size).sum + (free.map Entry.size).sum = n := by
  have used_bytes : dataBytes used = min (used.map Entry.size).sum Word.nil :=
    Survey.total_ofEntries_eq_min used
  have free_bytes : dataBytes free = min (free.map Entry.size).sum Word.nil :=
    Survey.total_ofEntries_eq_min free
  have word : Word.nil < 0x10000000000000000 := by decide
  simp only [totalBytes?, Option.bind_eq_bind, Option.bind_eq_some_iff, Word.add?, Word.mul?,
    Word.ofNat?_eq_some, headerSize]
  constructor
  · rintro ⟨_, ⟨rfl, _⟩, _, ⟨rfl, _⟩, _, ⟨rfl, _⟩, total, _⟩
    omega
  · intro total
    refine ⟨_, ⟨rfl, ?_⟩, _, ⟨rfl, ?_⟩, _, ⟨rfl, ?_⟩, ?_, ?_⟩
    all_goals omega

/-- The audit approves of a heap that is laid out. -/
theorem Laid.isSound (laid : h.Laid blocks) : h.isSound = .ok true := by
  have limit : h.region.size < 0x8000000000000000 := h.region.sizeLt
  have largest : Word.nil = 0xFFFFFFFFFFFFFFFF := rfl
  have total := laid.tiles.sum_eq
  have number := length_roster_add blocks
  have account : totalBytes? (roster true blocks) (roster false blocks) = some h.region.size := by
    refine (totalBytes?_eq_some_iff (by omega)).2 ?_
    rw [number]
    omega
  have free : dataBytes (roster false blocks) = freeBytes blocks :=
    Survey.total_ofEntries (by omega)
  rw [Heap.isSound, laid.entries_eq .free, laid.entries_eq .used]
  simp only [bind, Except.bind, pure, Except.pure, Chain.live, account, free, laid.counted]
  simp

end Heap

end RegionAlloc.TwoList
