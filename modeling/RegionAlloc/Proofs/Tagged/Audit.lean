import RegionAlloc.Proofs.Tagged.Corrupted

/-!
# The audit of a tagged heap in any state

The audit follows two walks that know nothing of one another: along the free list, and from header to
header through the region. Here the bytes, the first link and the counters of the heap may be any, as
long as the free list ends (`Heap.Walks`).

The second walk believes every size that it reads, so it needs no such condition: a size below that of
a header stops it, and so it comes nearer to the end marker with every step and cannot leave the region
before it gets there (`Heap.tiledFrom_returns`). If it comes out behind the end marker, there is no
count. Both walks count one by one, and neither has more to count than a word holds.
-/

namespace RegionAlloc.Tagged

open Block Region

namespace Heap

variable {h : Heap} {listed : List Entry} {blocks : List Block} {b : Block} {stored o n : Nat}
  {afterFree : Bool}

/-! ## Along the free list -/

/-- A walk along the free list from a stored link comes by these blocks, and ends where there is no
link or the end marker. Each link that it meets on the way leads to where a block can be. -/
def Walks (h : Heap) : Nat → List Entry → Prop
  | stored, [] => h.protect stored = Word.nil ∨ h.protect stored = h.endMarker
  | stored, e :: rest =>
    h.protect stored = e.offset ∧ h.IsPlace e.offset ∧ e.offset ≠ h.endMarker ∧
      h.region.readWord (e.offset + 8) % 0x8000000000000000 = e.size ∧
      h.Walks (h.region.readWord e.offset) rest

/-- The block that a stored link leads to. -/
def linked (h : Heap) (stored : Nat) : Option Nat :=
  if h.IsPlace (h.protect stored) ∧ h.protect stored ≠ h.endMarker then some (h.protect stored)
  else none

private theorem Walks.follows (walks : h.Walks stored listed)
    (inside : h.endMarker + 16 ≤ h.region.size) :
    Follows (fun b => h.linked (h.region.readWord b)) (h.linked stored) (listed.map Entry.offset) := by
  induction listed generalizing stored with
  | nil =>
    apply if_neg
    rintro ⟨place, other⟩
    exact walks.elim (place.ne_nil inside) other
  | cons e rest ih =>
    obtain ⟨plain, place, other, _, tail⟩ := walks
    rw [← plain] at place other
    exact ⟨(if_pos ⟨place, other⟩).trans (congrArg some plain), ih tail⟩

private theorem Walks.below (walks : h.Walks stored listed) :
    ∀ e ∈ listed, e.offset < h.endMarker := by
  induction listed generalizing stored with
  | nil =>
    intro e member
    cases member
  | cons f rest ih =>
    obtain ⟨_, place, other, _, tail⟩ := walks
    intro e member
    rcases List.mem_cons.1 member with rfl | inside
    · exact Nat.lt_of_le_of_ne place.2.1 other
    · exact ih tail e inside

/-- A walk that ends comes by no block twice, so it is short. -/
theorem Walks.length_le (walks : h.Walks stored listed)
    (inside : h.endMarker + 16 ≤ h.region.size) : listed.length ≤ h.region.size := by
  rw [← List.length_map Entry.offset]
  apply length_le_of_nodup (walks.follows inside).nodup
  intro o member
  obtain ⟨e, passed, rfl⟩ := List.mem_map.1 member
  have := walks.below e passed
  omega

/-- The walk is read as the blocks that it comes by. -/
theorem Walks.reads (walks : h.Walks stored listed) (inside : h.endMarker + 16 ≤ h.region.size)
    (marker : h.IsPlace h.endMarker) (fuel : Nat) :
    ∃ link, h.decodeLink stored = .ok link ∧
      h.freeBlocksFrom (listed.length + (fuel + 1)) link = .ok listed := by
  induction listed generalizing stored with
  | nil =>
    rcases walks with nowhere | last
    · refine ⟨none, ?_, ?_⟩
      · unfold decodeLink
        exact if_pos nowhere
      · rw [freeBlocksFrom]
        rfl
    · refine ⟨some h.endMarker, decodeLink_of_place inside last marker, ?_⟩
      rw [List.length_nil, Nat.zero_add, freeBlocksFrom, if_pos rfl]
      rfl
  | cons e rest ih =>
    have low := walks.below e List.mem_cons_self
    obtain ⟨plain, place, other, size, tail⟩ := walks
    obtain ⟨link, next, later⟩ := ih tail
    have room : e.offset + 16 ≤ h.region.size := by omega
    refine ⟨some e.offset, decodeLink_of_place inside plain place, ?_⟩
    rw [List.length_cons, Nat.add_right_comm, freeBlocksFrom, if_neg other, next?,
      h.region.loadWord_eq_ok (by omega), blockSize_of_room room, size]
    simp only [bind, Except.bind, next, later]
    rfl

private theorem Walks.survey_eq (walks : h.Walks h.headLink listed)
    (inside : h.endMarker + 16 ≤ h.region.size) (marker : h.IsPlace h.endMarker) :
    h.survey = .ok (.ofEntries listed) := by
  obtain ⟨fuel, enough⟩ : ∃ fuel, h.walkBound = listed.length + (fuel + 1) := by
    have short := walks.length_le inside
    exact ⟨h.region.size - listed.length, by unfold walkBound; omega⟩
  obtain ⟨link, first, later⟩ := walks.reads inside marker fuel
  rw [survey, freeBlocks, next?, first, enough]
  simp only [bind, Except.bind, later]
  rfl

/-- A walk along the free list that ends has come by no more blocks than it could take steps. -/
theorem length_freeBlocksFrom_le {fuel : Nat} {link : Option Nat}
    (walked : h.freeBlocksFrom fuel link = .ok listed) : listed.length ≤ fuel := by
  induction fuel generalizing link listed with
  | zero =>
    cases link with
    | none =>
      obtain rfl := Except.ok.inj walked
      exact Nat.le_refl 0
    | some block => cases walked
  | succ fuel ih =>
    cases link with
    | none =>
      obtain rfl := Except.ok.inj walked
      exact Nat.zero_le _
    | some block =>
      rw [freeBlocksFrom] at walked
      by_cases last : block = h.endMarker
      · rw [if_pos last] at walked
        obtain rfl := Except.ok.inj walked
        exact Nat.zero_le _
      · rw [if_neg last] at walked
        obtain ⟨next, _, walked⟩ := exists_of_bind_eq_ok walked
        obtain ⟨size, _, walked⟩ := exists_of_bind_eq_ok walked
        obtain ⟨rest, later, walked⟩ := exists_of_bind_eq_ok walked
        obtain rfl := Except.ok.inj walked
        exact Nat.succ_le_succ (ih later)

/-- The number of blocks on a free list that ends is a word. -/
theorem count_lt_of_survey {survey : Survey} (surveyed : h.survey = .ok survey) :
    survey.count < 0x10000000000000000 := by
  have limit : h.region.size < 0x8000000000000000 := h.region.sizeLt
  obtain ⟨listed, read, same⟩ := exists_of_bind_eq_ok surveyed
  obtain rfl := Except.ok.inj same
  obtain ⟨link, _, walked⟩ := exists_of_bind_eq_ok read
  have short := length_freeBlocksFrom_le walked
  unfold walkBound at short
  rw [Survey.count_ofEntries]
  omega

/-! ## From header to header -/

/-- From `o` up to the end marker, the headers that lie one behind the other are those of these blocks.
None is shorter than a header, no two free ones follow one another, and the first one is live if it comes
after a free one. -/
structure Lined (h : Heap) (o : Nat) (afterFree : Bool) (blocks : List Block) : Prop where
  tiles : Tiles 0 o blocks h.endMarker
  headers : ∀ b ∈ blocks, h.blockSize b.offset = .ok b.size ∧
    h.blockTag b.offset = .ok (Tag.ofLive b.live) ∧ h.headerSize ≤ b.size
  settled : Settled blocks
  first : ∀ b ∈ blocks.head?, afterFree = true → b.live = true

private theorem lined_nil (h : Heap) (afterFree : Bool) : h.Lined h.endMarker afterFree [] where
  tiles := rfl
  headers b member := by cases member
  settled := List.IsChain.nil
  first b absurd := by cases absurd

private theorem Lined.cons (lined : h.Lined (b.offset + b.size) (!b.live) blocks)
    (size : h.blockSize b.offset = .ok b.size) (tag : h.blockTag b.offset = .ok (Tag.ofLive b.live))
    (wide : h.headerSize ≤ b.size) (next : b.live = false → afterFree = false) :
    h.Lined b.offset afterFree (b :: blocks) where
  tiles := by
    have header := h.settings.sixteen_le_headerSize
    refine ⟨rfl, ?_, ?_⟩
    · exact Nat.le_trans header (by rwa [Nat.zero_add])
    · rw [Nat.zero_add]
      exact lined.tiles
  headers := List.forall_mem_cons.2 ⟨⟨size, tag, wide⟩, lined.headers⟩
  settled := by
    refine List.isChain_cons.2 ⟨fun c head => ?_, lined.settled⟩
    cases live : b.live
    · exact Or.inr (lined.first c head (by rw [live]; rfl))
    · exact Or.inl rfl
  first c head after := by
    obtain rfl := Option.some.inj head
    cases live : b.live
    · rw [next live] at after
      cases after
    · rfl

/-- A header that can be read is that of some block. -/
theorem exists_block (room : o + 16 ≤ h.region.size) : ∃ b : Block, b.offset = o ∧
    h.blockSize o = .ok b.size ∧ h.blockTag o = .ok (Tag.ofLive b.live) ∧
    b.size < 0x8000000000000000 := by
  have small : h.region.readWord (o + 8) % 0x8000000000000000 < 0x8000000000000000 :=
    Nat.mod_lt _ (by decide)
  by_cases free : h.region.readWord (o + 8) < 0x8000000000000000
  · refine ⟨⟨⟨o, _⟩, false⟩, rfl, blockSize_of_room room, ?_, small⟩
    rw [blockTag_of_room room, if_pos free]
    rfl
  · refine ⟨⟨⟨o, _⟩, true⟩, rfl, blockSize_of_room room, ?_, small⟩
    rw [blockTag_of_room room, if_neg free]
    rfl

/-- **The walk from header to header returns**, whatever the headers say. Where it has counted the free
blocks, the headers lie in line. -/
theorem tiledFrom_returns (inside : h.endMarker + 16 ≤ h.region.size) (o : Nat) (afterFree : Bool) :
    ∃ count, h.tiledFrom o afterFree = .ok count ∧ ∀ n, count = some n →
      ∃ blocks, h.Lined o afterFree blocks ∧ (roster false blocks).length = n := by
  -- What is left up to the end marker gets less with every block.
  induction left : h.endMarker - o using Nat.strong_induction_on generalizing o afterFree with
  | _ distance ih =>
    have limit : h.region.size < 0x8000000000000000 := h.region.sizeLt
    by_cases low : o < h.endMarker
    · obtain ⟨b, rfl, size, tag, small⟩ := exists_block (show o + 16 ≤ h.region.size by omega)
      rw [tiledFrom_step low size tag (by omega)]
      by_cases stops : b.size < h.headerSize ∨ b.live = false ∧ afterFree = true
      · rw [if_pos stops]
        refine ⟨none, rfl, ?_⟩
        intro n absurd
        cases absurd
      · obtain ⟨wide, alternates⟩ := not_or.1 stops
        have header : 16 ≤ h.headerSize := h.settings.sixteen_le_headerSize
        have nearer : h.endMarker - (b.offset + b.size) < distance := by omega
        obtain ⟨count, counted, found⟩ := ih _ nearer (b.offset + b.size) (!b.live) rfl
        rw [if_neg stops, counted]
        refine ⟨_, rfl, ?_⟩
        intro n same
        obtain ⟨m, rfl, rfl⟩ := Option.map_eq_some_iff.1 same
        obtain ⟨blocks, lined, rfl⟩ := found m rfl
        refine ⟨b :: blocks, lined.cons size tag (Nat.not_lt.1 wide) ?_, ?_⟩
        · intro free
          exact Bool.eq_false_iff.2 fun after => alternates ⟨free, after⟩
        · cases live : b.live <;> simp [roster_cons, live]
    · rw [tiledFrom_end low]
      refine ⟨_, rfl, ?_⟩
      intro n same
      by_cases last : o = h.endMarker
      · subst last
        rw [if_pos rfl] at same
        exact ⟨[], lined_nil h afterFree, Option.some.inj same⟩
      · rw [if_neg last] at same
        cases same

/-- So is the number of free blocks that the walk from header to header counts. -/
theorem count_lt_of_tiledFrom (inside : h.endMarker + 16 ≤ h.region.size)
    (walked : h.tiledFrom o afterFree = .ok (some n)) : n < 0x10000000000000000 := by
  have limit : h.region.size < 0x8000000000000000 := h.region.sizeLt
  obtain ⟨count, again, found⟩ := tiledFrom_returns inside o afterFree
  obtain ⟨blocks, lined, rfl⟩ := found n (Except.ok.inj (again.symm.trans walked))
  have few := (lined.tiles.spread_roster false).length_le
  omega

/-- Headers that lie in line are counted. -/
theorem Lined.tiledFrom_eq (lined : h.Lined o afterFree blocks)
    (inside : h.endMarker + 16 ≤ h.region.size) :
    h.tiledFrom o afterFree = .ok (some (roster false blocks).length) := by
  have limit : h.region.size < 0x8000000000000000 := h.region.sizeLt
  exact Heap.tiledFrom_eq lined.tiles (by omega) lined.headers lined.settled lined.first

/-! ## Both walks -/

/-- The heap is laid out as these blocks, with as many free ones as there are on the free list, and the
sizes on the free list add up to the bytes that are counted as free; the sum stops at the largest word. -/
structure Audited (h : Heap) (listed : List Entry) (blocks : List Block) : Prop where
  lined : h.Lined h.start false blocks
  count : (roster false blocks).length = listed.length
  bytes : min (listed.map Entry.size).sum Word.nil = h.usage.free

end Heap

variable {region : Region} {settings : Settings} {overflow : Overflow} {h₀ h : Heap}
  {listed : List Entry}

/-- **The audit decides whether a heap is laid out as it should be.** Whatever the bytes of the heap, its
first link and its counters are, if the free list ends then the audit returns, and it approves just of a
heap that is laid out as some blocks. -/
theorem audit_decides_layout (created : Heap.create region settings overflow = .ok h₀)
    (same : SameGeometry h₀ h) (walks : h.Walks h.headLink listed) :
    ∃ answer, h.isSound = .ok answer ∧ (answer = true ↔ ∃ blocks, h.Audited listed blocks) := by
  obtain ⟨_, laid, _⟩ := Heap.laid_create created
  have inside := (same.formed laid.formed).inside_header
  have marker : h.IsPlace h.endMarker := by
    rw [same.endMarker]
    exact same.isPlace laid.isPlace_endMarker
  obtain ⟨count, tiled, found⟩ := Heap.tiledFrom_returns inside h.start false
  rw [Heap.isSound, walks.survey_eq inside marker]
  simp only [bind, Except.bind, tiled, Survey.count_ofEntries, Survey.total_ofEntries_eq_min]
  refine ⟨_, rfl, ?_⟩
  rw [Bool.and_eq_true, decide_eq_true_iff, beq_iff_eq]
  constructor
  · rintro ⟨all, bytes⟩
    obtain ⟨blocks, lined, number⟩ := found _ all
    exact ⟨blocks, lined, number, bytes⟩
  · rintro ⟨blocks, lined, number, bytes⟩
    have again := Except.ok.inj (tiled.symm.trans (lined.tiledFrom_eq inside))
    rw [again, number]
    exact ⟨rfl, bytes⟩

/-- Two blocks whose sizes are no multiples of the alignment, the first one on the free list, which ends
there without a link. -/
def cutHeap (h : Heap) : Heap :=
  scribbled (scribbled h 116 none 0x800000000000002B) 15 none 101

private theorem sameGeometry_cutHeap (h : Heap) : SameGeometry h (cutHeap h) :=
  (sameGeometry_scribbled h 116 none _).trans (sameGeometry_scribbled _ 15 none _)

/-- What the headers of such a heap show. -/
def cutBlocks : List Block :=
  [⟨⟨15, 101⟩, false⟩, ⟨⟨116, 43⟩, true⟩]

set_option maxRecDepth 4000 in
/-- A heap that no calls lead to is approved of, as its blocks are in line. -/
theorem audit_decides_layout_cutHeap : ∃ h₀, Heap.create oddRegion clearing .trap = .ok h₀ ∧
    (cutHeap h₀).Audited [⟨15, 101⟩] cutBlocks ∧ (cutHeap h₀).isSound = .ok true := by
  obtain ⟨h₀, created, walks, start, marker, headers, bytes⟩ : ∃ h₀,
      Heap.create oddRegion clearing .trap = .ok h₀ ∧
      (cutHeap h₀).Walks (cutHeap h₀).headLink [⟨15, 101⟩] ∧ (cutHeap h₀).start = 15 ∧
      159 = (cutHeap h₀).endMarker ∧
      (∀ b ∈ cutBlocks, (cutHeap h₀).blockSize b.offset = .ok b.size ∧
        (cutHeap h₀).blockTag b.offset = .ok (Tag.ofLive b.live) ∧
        (cutHeap h₀).headerSize ≤ b.size) ∧ 101 = (cutHeap h₀).usage.free := by
    refine ⟨_, rfl, ?_, by decide +kernel⟩
    exact ⟨by decide +kernel, by decide +kernel, by decide +kernel, by decide +kernel,
      Or.inl (by decide +kernel)⟩
  have lined : (cutHeap h₀).Lined (cutHeap h₀).start false cutBlocks := by
    rw [start]
    refine ⟨⟨rfl, by decide, rfl, by decide, marker⟩, headers, ?_, ?_⟩
    · exact List.isChain_pair.2 (Or.inr rfl)
    · intro b _ absurd
      cases absurd
  have audited : (cutHeap h₀).Audited [⟨15, 101⟩] cutBlocks := ⟨lined, rfl, bytes⟩
  obtain ⟨answer, audit, exact⟩ := audit_decides_layout created (sameGeometry_cutHeap h₀) walks
  rw [exact.2 ⟨_, audited⟩] at audit
  exact ⟨h₀, created, audited, audit⟩

end RegionAlloc.Tagged
