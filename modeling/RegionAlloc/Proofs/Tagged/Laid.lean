import RegionAlloc.Proofs.Counting
import RegionAlloc.Proofs.Tagged.Chains
import RegionAlloc.Tagged.Create

/-!
# How a tagged heap lies in its region

`Heap.Laid` ties the views of a tagged heap together: the blocks that tile the range from the start
to the end marker, the tags in their headers, the free list, and the counter of free bytes. It holds
of a new heap (`laid_create`), and of a heap so laid out the audit finds nothing wrong
(`Laid.isSound`).
-/

namespace RegionAlloc.Tagged

open Block Region

/-! ## Sizes -/

namespace Settings

variable {s : Settings} {request padded : Nat}

/-- A valid alignment is not zero. -/
theorem Valid.alignment_pos (valid : s.Valid) : 0 < s.alignment := by
  obtain ⟨k, power⟩ := Word.isPowerOfTwo_iff.1 valid.1
  rw [power, Nat.one_shiftLeft]
  exact Nat.two_pow_pos k

/-- The header is padded to the alignment. -/
theorem Valid.dvd_headerSize (valid : s.Valid) : s.alignment ∣ s.headerSize :=
  Word.dvd_roundUp valid.alignment_pos 16

/-- A header is no shorter than the alignment. -/
theorem Valid.alignment_le (valid : s.Valid) : s.alignment ≤ s.headerSize := by
  have := s.sixteen_le_headerSize
  exact Nat.le_of_dvd (by omega) valid.dvd_headerSize

/-- A multiple of the alignment above the size of a header has room for one unit besides it. -/
theorem Valid.headerSize_add_le (valid : s.Valid) {size : Nat} (multiple : s.alignment ∣ size)
    (above : s.headerSize < size) : s.headerSize + s.alignment ≤ size := by
  have rest : s.alignment ∣ size - s.headerSize := Nat.dvd_sub multiple valid.dvd_headerSize
  have := Nat.le_of_dvd (by omega) rest
  omega

/-- A padded size is a multiple of the alignment, has room for the request and a header, and stays
clear of the tag bit. -/
theorem paddedSize?_eq_some (valid : s.Valid) (fits : s.paddedSize? request = some padded) :
    s.alignment ∣ padded ∧ request + s.headerSize ≤ padded ∧ padded < 0x8000000000000000 := by
  obtain ⟨rounded, small⟩ := Option.filter_eq_some_iff.1 fits
  obtain ⟨sum, added, up⟩ := Option.bind_eq_some_iff.1 rounded
  obtain ⟨rfl, _⟩ := Word.ofNat?_eq_some.1 added
  obtain ⟨rfl, _⟩ := Word.ofNat?_eq_some.1 up
  exact ⟨Word.dvd_roundUp valid.alignment_pos _, Word.le_roundUp _ _, of_decide_eq_true small⟩

end Settings

/-- The tag of a live block, or of a free one. -/
def Tag.ofLive (live : Bool) : Tag :=
  if live then .allocated else .free

private theorem Tag.ofLive_inj {live live' : Bool} (same : ofLive live = ofLive live') :
    live = live' := by
  revert same
  cases live <;> cases live' <;> decide

private theorem Tag.isFree_ofLive (live : Bool) : (ofLive live).isFree = !live := by
  cases live <;> rfl

namespace Heap

variable {h : Heap} {blocks : List Block} {b : Block}

/-- The heap lies in its region as it should: at an aligned address, and with room for the header
behind its last block. -/
structure Formed (h : Heap) : Prop where
  valid : h.settings.Valid
  aligned : h.settings.alignment ∣ h.region.base + h.start
  inside : h.endMarker + h.headerSize ≤ h.region.size

/-- The heap is laid out as these blocks: they tile the range up to the end marker, each a multiple
of the alignment with room for more than a header, and no two free ones follow one another. The free
ones are on the free list, the live ones are stamped, and as many bytes count as free as the free
blocks have. -/
structure Laid (h : Heap) (blocks : List Block) : Prop where
  formed : h.Formed
  tiles : Tiles 0 h.start blocks h.endMarker
  sizes : ∀ b ∈ blocks, h.settings.alignment ∣ b.size ∧
    h.headerSize + h.settings.alignment ≤ b.size
  settled : Settled blocks
  leads : h.Leads (roster false blocks ++ [h.marker]) none
  stamped : ∀ e ∈ roster true blocks, Stamped h.settings h.region e
  counted : h.usage.free = freeBytes blocks

/-- There is room for a header behind the last block. -/
theorem Formed.inside_header (formed : h.Formed) : h.endMarker + 16 ≤ h.region.size := by
  have := formed.inside
  have := h.settings.sixteen_le_headerSize
  unfold headerSize at *
  omega

/-- What a heap is set up with keeps it formed. -/
theorem Formed.of_alike {h' : Heap} (formed : h.Formed) (alike : Alike h h')
    (base : h'.region.base = h.region.base) (size : h'.region.size = h.region.size) : h'.Formed where
  valid := by
    rw [alike.settings]
    exact formed.valid
  aligned := by
    rw [alike.settings, base, alike.start]
    exact formed.aligned
  inside := by
    rw [alike.endMarker, size, headerSize, alike.settings]
    exact formed.inside

/-- There is room for a header behind the last block of a heap that is laid out. -/
theorem Laid.inside (laid : h.Laid blocks) : h.endMarker + 16 ≤ h.region.size :=
  laid.formed.inside_header

/-- The blocks of one kind are spread up to the end marker. -/
theorem Laid.spread (laid : h.Laid blocks) (live : Bool) :
    Spread 0 h.endMarker (roster live blocks) :=
  laid.tiles.spread_roster live

/-- A block ends before the end marker and has room for more than its header. -/
theorem Laid.room (laid : h.Laid blocks) (member : b ∈ blocks) :
    b.offset + b.size ≤ h.endMarker ∧ h.headerSize < b.size ∧ 16 ≤ h.headerSize := by
  have := laid.tiles.le_stop member
  have := (laid.sizes b member).2
  have := laid.formed.valid.alignment_pos
  exact ⟨by omega, by omega, h.settings.sixteen_le_headerSize⟩

private theorem Laid.freeBytes_le (laid : h.Laid blocks) : freeBytes blocks ≤ h.endMarker := by
  have := laid.tiles.sum_eq
  unfold freeBytes
  omega

/-- The bytes of one more block can be counted as free. -/
theorem Laid.free_add_lt (laid : h.Laid blocks) (member : b ∈ blocks) :
    h.usage.free + b.size < 0x10000000000000000 := by
  have limit : h.region.size < 0x8000000000000000 := h.region.sizeLt
  have := laid.inside
  have := laid.freeBytes_le
  have := laid.counted
  have := (laid.room member).1
  omega

/-- A free block is no larger than what counts as free. -/
theorem Laid.size_le_free {pre post : List Block} (laid : h.Laid (pre ++ b :: post))
    (free : b.live = false) : b.size ≤ h.usage.free := by
  rw [laid.counted, freeBytes_append, freeBytes_cons, free]
  simp only [Bool.false_eq_true, if_false]
  omega

private theorem isPlace_of_tiles (tiles : Tiles 0 h.start blocks h.endMarker)
    (sizes : ∀ b ∈ blocks, h.settings.alignment ∣ b.size) :
    (∀ b ∈ blocks, h.IsPlace b.offset) ∧ h.IsPlace h.endMarker := by
  obtain ⟨offsets, distance⟩ := tiles.dvd fun b member => by
    rw [Nat.zero_add]
    exact sizes b member
  constructor
  · intro b member
    have low := tiles.start_le member
    have high := tiles.le_stop member
    exact ⟨low, by omega, Nat.mod_eq_zero_of_dvd (offsets b member)⟩
  · exact ⟨tiles.le, Nat.le_refl _, Nat.mod_eq_zero_of_dvd distance⟩

/-- Blocks lie where blocks can be. -/
theorem Laid.isPlace (laid : h.Laid blocks) (member : b ∈ blocks) : h.IsPlace b.offset :=
  (isPlace_of_tiles laid.tiles fun c inside => (laid.sizes c inside).1).1 b member

/-- The end marker lies where a block could be. -/
theorem Laid.isPlace_endMarker (laid : h.Laid blocks) : h.IsPlace h.endMarker :=
  (isPlace_of_tiles laid.tiles fun c inside => (laid.sizes c inside).1).2

/-- The payload of every block is aligned. -/
theorem Laid.dvd_address (laid : h.Laid blocks) (member : b ∈ blocks) :
    h.settings.alignment ∣ h.region.base + (b.offset + h.headerSize) := by
  obtain ⟨low, _, distance⟩ := laid.isPlace member
  have sum : h.region.base + (b.offset + h.headerSize)
      = h.region.base + h.start + (b.offset - h.start) + h.headerSize := by omega
  rw [sum]
  exact Nat.dvd_add (Nat.dvd_add laid.formed.aligned (Nat.dvd_of_mod_eq_zero distance))
    laid.formed.valid.dvd_headerSize

/-- The free blocks are admitted to the free list. -/
theorem Laid.admits (laid : h.Laid blocks) : h.Admits (roster false blocks) := by
  intro e member
  obtain ⟨b, inside, _, rfl⟩ := mem_roster.1 member
  have limit : h.region.size < 0x8000000000000000 := h.region.sizeLt
  have := laid.inside
  have := laid.room inside
  exact ⟨laid.isPlace inside, by omega⟩

/-- The free list without the end marker. -/
theorem Laid.chained (laid : h.Laid blocks) :
    Chained (code h.settings) h.region (some h.endMarker) (roster false blocks) :=
  (leads_append.1 laid.leads).1.chained

/-- A free list that ends with the end marker leads somewhere even if it is empty. -/
theorem leadsTo_marked (h : Heap) (es : List Entry) :
    leadsTo none (es ++ [h.marker]) = some (startOf h.endMarker es) := by
  cases es <;> rfl

/-- Where the free list goes on behind a block is a place for a block. -/
theorem Laid.placed_behind {pre post : List Block} (laid : h.Laid (pre ++ b :: post)) :
    h.Placed (leadsTo none (roster false post ++ [h.marker])) := by
  rw [leadsTo_append]
  refine Admits.placed (fun e member => laid.admits e ?_) laid.isPlace_endMarker
  have behind : roster false post ⊆ roster false (b :: post) := by
    rw [roster_cons]
    split
    · exact List.subset_cons_self _ _
    · exact List.Subset.refl _
  rw [roster_append]
  exact List.mem_append_right _ (behind member)

/-- The header of the end marker is apart from those in front of it. -/
theorem headersApart_marker {es : List Entry} (below : ∀ e ∈ es, e.offset + 16 ≤ h.endMarker) :
    HeadersApart es [h.marker] := by
  intro x left y right
  obtain rfl := List.mem_singleton.1 right
  exact Or.inl (below x left)

/-- The header of the end marker lies apart from those in front of it. -/
theorem headersApart_marker_of_spread {es : List Entry} (spread : Spread 0 h.endMarker es) :
    HeadersApart es [h.marker] := by
  refine headersApart_marker fun e member => ?_
  have := spread.room e member
  have := spread.inside e member
  omega

/-- The first link leads to the first free block, or to the end marker. -/
theorem Laid.next?_head (laid : h.Laid blocks) :
    h.next? .head = .ok (leadsTo (some h.endMarker) (roster false blocks)) :=
  Heap.next?_head laid.inside (leads_append.1 laid.leads).1 (laid.admits.placed laid.isPlace_endMarker)

/-! ## Headers as they lie -/

/-- The header of a block shows its size. -/
theorem Laid.blockSize_eq (laid : h.Laid blocks) (member : b ∈ blocks) :
    h.blockSize b.offset = .ok b.size := by
  have limit : h.region.size < 0x8000000000000000 := h.region.sizeLt
  have := laid.inside
  obtain ⟨high, wide, header⟩ := laid.room member
  cases live : b.live
  · have word := laid.chained.size_of_mem (mem_roster.2 ⟨b, member, live, rfl⟩)
    rw [blockSize_of_room (by omega), word, Nat.mod_eq_of_lt (by omega)]
  · exact blockSize_of_stamped (laid.stamped _ (mem_roster.2 ⟨b, member, live, rfl⟩)) (by omega)

private theorem Laid.blockTag_eq (laid : h.Laid blocks) (member : b ∈ blocks) :
    h.blockTag b.offset = .ok (Tag.ofLive b.live) := by
  have limit : h.region.size < 0x8000000000000000 := h.region.sizeLt
  have := laid.inside
  obtain ⟨high, wide, header⟩ := laid.room member
  cases live : b.live
  · have word := laid.chained.size_of_mem (mem_roster.2 ⟨b, member, live, rfl⟩)
    rw [blockTag_of_room (by omega), word, if_pos (by omega)]
    rfl
  · exact blockTag_of_stamped (laid.stamped _ (mem_roster.2 ⟨b, member, live, rfl⟩))

/-- The end marker is a free header of size zero without a link. -/
theorem Laid.endMarker_eq (laid : h.Laid blocks) :
    h.blockSize h.endMarker = .ok 0 ∧ h.blockTag h.endMarker = .ok .free ∧
      h.next? (.block h.endMarker) = .ok none := by
  obtain ⟨_, back⟩ := leads_append.1 laid.leads
  refine ⟨?_, ?_, ?_⟩
  · exact Heap.blockSize_eq back (Nat.two_pow_pos 63)
  · exact Heap.blockTag_eq back (Nat.two_pow_pos 63)
  · exact next?_block laid.inside back fun o absurd => by cases absurd

/-- A live block has no link. -/
theorem Laid.next?_eq (laid : h.Laid blocks) (member : b ∈ blocks) (live : b.live = true) :
    h.next? (.block b.offset) = .ok none := by
  have stamped := laid.stamped _ (mem_roster.2 ⟨b, member, live, rfl⟩)
  have room := stamped.room
  rw [next?, h.region.loadWord_eq_ok (by omega), stamped.link]
  exact decodeLink_eq laid.inside fun o absurd => by cases absurd

/-- From an offset on, the headers show these blocks one behind the other, up to the end marker. -/
def Shows (h : Heap) : Nat → List Block → Prop
  | o, [] => o = h.endMarker
  | o, b :: rest =>
    b.offset = o ∧ o < h.endMarker ∧ h.blockSize o = .ok b.size ∧
      h.blockTag o = .ok (Tag.ofLive b.live) ∧ h.Shows (o + b.size) rest

instance decidableShows (h : Heap) : ∀ (o : Nat) (blocks : List Block), Decidable (h.Shows o blocks)
  | o, [] => inferInstanceAs (Decidable (o = h.endMarker))
  | o, b :: rest =>
    have := decidableShows h (o + b.size) rest
    inferInstanceAs (Decidable (_ ∧ _ ∧ _ ∧ _ ∧ _))

private theorem shows_of_tiles {start : Nat} (tiles : Tiles 0 start blocks h.endMarker)
    (headers : ∀ b ∈ blocks, h.blockSize b.offset = .ok b.size ∧
      h.blockTag b.offset = .ok (Tag.ofLive b.live)) : h.Shows start blocks := by
  induction blocks generalizing start with
  | nil => exact tiles
  | cons b rest ih =>
    obtain ⟨rfl, room, tail⟩ := tiles
    rw [Nat.zero_add] at room tail
    obtain ⟨size, tag⟩ := headers b List.mem_cons_self
    have beyond := tail.le
    exact ⟨rfl, by omega, size, tag, ih tail fun c member => headers c (List.mem_cons_of_mem _ member)⟩

/-- The headers show the blocks. -/
theorem Laid.shows (laid : h.Laid blocks) : h.Shows h.start blocks :=
  shows_of_tiles laid.tiles fun _ member => ⟨laid.blockSize_eq member, laid.blockTag_eq member⟩

/-- The headers show only one list of blocks. -/
theorem Shows.unique {o : Nat} {blocks' : List Block} (shows : h.Shows o blocks)
    (shows' : h.Shows o blocks') : blocks' = blocks := by
  induction blocks generalizing o blocks' with
  | nil =>
    obtain rfl : o = h.endMarker := shows
    cases blocks' with
    | nil => rfl
    | cons c rest => exact absurd shows'.2.1 (Nat.lt_irrefl _)
  | cons b rest ih =>
    obtain ⟨rfl, low, size, tag, tail⟩ := shows
    cases blocks' with
    | nil =>
      obtain same : b.offset = h.endMarker := shows'
      omega
    | cons c rest' =>
      obtain ⟨offset, _, size', tag', tail'⟩ := shows'
      have sizes : c.size = b.size := Except.ok.inj (size'.symm.trans size)
      have tags : c.live = b.live := Tag.ofLive_inj (Except.ok.inj (tag'.symm.trans tag))
      have same : c = b := eq_of_toEntry (Entry.mk.injEq .. ▸ ⟨offset, sizes⟩) tags
      subst same
      rw [ih tail tail']

/-- From an anchor on, the links lead through these blocks to the end marker. -/
def Lists (h : Heap) : Anchor → List Entry → Prop
  | anchor, [] => h.next? anchor = .ok (some h.endMarker)
  | anchor, e :: rest =>
    h.next? anchor = .ok (some e.offset) ∧ h.blockSize e.offset = .ok e.size ∧
      h.Lists (.block e.offset) rest

private theorem lists_of_chained {es : List Entry} {anchor : Anchor}
    (inside : h.endMarker + 16 ≤ h.region.size) (place : h.IsPlace h.endMarker)
    (chained : Chained (code h.settings) h.region (some h.endMarker) es) (admits : h.Admits es)
    (first : h.next? anchor = .ok (leadsTo (some h.endMarker) es)) : h.Lists anchor es := by
  induction es generalizing anchor with
  | nil => exact first
  | cons e rest ih =>
    refine ⟨first, Heap.blockSize_eq chained (admits e List.mem_cons_self).2, ?_⟩
    exact ih chained.2.2.2 admits.of_cons (next?_block inside chained (admits.of_cons.placed place))

/-- The free list lists the free blocks. -/
theorem Laid.lists (laid : h.Laid blocks) : h.Lists .head (roster false blocks) :=
  lists_of_chained laid.inside laid.isPlace_endMarker laid.chained laid.admits laid.next?_head

/-! ## The audit -/

/-- The free list is read as the free blocks. -/
theorem Laid.freeBlocks_eq (laid : h.Laid blocks) : h.freeBlocks = .ok (roster false blocks) := by
  have inside := laid.inside
  have other : ∀ e ∈ roster false blocks, e.offset ≠ h.endMarker := by
    intro e member
    have := (laid.spread false).room e member
    have := (laid.spread false).inside e member
    omega
  obtain ⟨fuel, enough⟩ : ∃ fuel, h.walkBound = (roster false blocks).length + (fuel + 1) :=
    (laid.spread false).exists_fuel (by omega)
  rw [freeBlocks, laid.next?_head, enough]
  exact freeBlocksFrom_append inside laid.chained laid.isPlace_endMarker laid.admits fuel rfl other

private theorem Laid.survey_eq (laid : h.Laid blocks) :
    h.survey = .ok (.ofEntries (roster false blocks)) := by
  rw [survey, laid.freeBlocks_eq]
  rfl

/-- The statistics are those of the free blocks and of the counters. -/
theorem Laid.statistics_eq (laid : h.Laid blocks) :
    h.statistics = .ok (.ofSurvey (.ofEntries (roster false blocks)) h.usage) := by
  rw [statistics, laid.survey_eq]
  rfl

/-- Where a header can be read, the walk from block to block stops, or goes on behind that block. -/
theorem tiledFrom_step {afterFree : Bool} (low : b.offset < h.endMarker)
    (size : h.blockSize b.offset = .ok b.size) (tag : h.blockTag b.offset = .ok (Tag.ofLive b.live))
    (word : b.offset + b.size < 0x10000000000000000) :
    h.tiledFrom b.offset afterFree =
      if b.size < h.headerSize ∨ b.live = false ∧ afterFree = true then .ok none
      else do
        let count ← h.tiledFrom (b.offset + b.size) (!b.live)
        return count.map fun n => if b.live then n else n + 1 := by
  rw [tiledFrom, if_pos low, size, tag]
  simp only [bind, Except.bind, if_pos word, Tag.isFree_ofLive]
  by_cases narrow : b.size < h.headerSize
  · rw [if_pos narrow, if_pos (Or.inl narrow)]
    rfl
  · rw [if_neg narrow]
    cases b.live <;> cases afterFree <;> simp [narrow, pure, Except.pure]

/-- At the end marker nothing more is counted, and behind it there is no count. -/
theorem tiledFrom_end {o : Nat} {afterFree : Bool} (high : ¬ o < h.endMarker) :
    h.tiledFrom o afterFree = .ok (if o = h.endMarker then some 0 else none) := by
  rw [tiledFrom, if_neg high]
  rfl

/-- The walk from block to block finds as many free blocks as there are. -/
theorem tiledFrom_eq {start : Nat} {afterFree : Bool} (tiles : Tiles 0 start blocks h.endMarker)
    (limit : h.endMarker < 0x10000000000000000)
    (headers : ∀ b ∈ blocks, h.blockSize b.offset = .ok b.size ∧
      h.blockTag b.offset = .ok (Tag.ofLive b.live) ∧ h.headerSize ≤ b.size)
    (settled : Settled blocks) (first : ∀ b ∈ blocks.head?, afterFree = true → b.live = true) :
    h.tiledFrom start afterFree = .ok (some (roster false blocks).length) := by
  induction blocks generalizing start afterFree with
  | nil =>
    obtain rfl : start = h.endMarker := tiles
    rw [tiledFrom_end (Nat.lt_irrefl _), if_pos rfl]
    rfl
  | cons b rest ih =>
    obtain ⟨rfl, room, tail⟩ := tiles
    rw [Nat.zero_add] at room tail
    obtain ⟨size, tag, wide⟩ := headers b List.mem_cons_self
    have beyond := tail.le
    obtain ⟨next, later⟩ := List.isChain_cons.1 settled
    have goes : ¬ (b.size < h.headerSize ∨ b.live = false ∧ afterFree = true) := by
      rintro (narrow | ⟨free, after⟩)
      · exact Nat.not_lt.2 wide narrow
      · rw [first b rfl after] at free
        cases free
    have behind : ∀ c ∈ rest.head?, (!b.live) = true → c.live = true := by
      intro c head free
      refine (next c head).resolve_left fun live => ?_
      rw [live] at free
      cases free
    have count : h.tiledFrom (b.offset + b.size) (!b.live) = .ok (some (roster false rest).length) :=
      ih tail (fun c member => headers c (List.mem_cons_of_mem _ member)) later behind
    rw [tiledFrom_step (by omega) size tag (by omega), if_neg goes, count]
    cases live : b.live <;> simp [roster_cons, live, bind, Except.bind, pure, Except.pure]

/-- The audit approves of a heap that is laid out. -/
theorem Laid.isSound (laid : h.Laid blocks) : h.isSound = .ok true := by
  have limit : h.region.size < 0x8000000000000000 := h.region.sizeLt
  have inside := laid.inside
  have bytes := laid.freeBytes_le
  have tiled : h.tiledFrom h.start false = .ok (some (roster false blocks).length) := by
    refine tiledFrom_eq laid.tiles (by omega) (fun b member => ?_) laid.settled fun b _ absurd => by
      cases absurd
    obtain ⟨_, wide, _⟩ := laid.room member
    exact ⟨laid.blockSize_eq member, laid.blockTag_eq member, Nat.le_of_lt wide⟩
  have total : (Survey.ofEntries (roster false blocks)).total = h.usage.free := by
    rw [laid.counted]
    exact Survey.total_ofEntries (by unfold freeBytes at bytes; omega)
  rw [Heap.isSound, laid.survey_eq]
  simp only [bind, Except.bind, tiled, Survey.count_ofEntries, total]
  simp [pure, Except.pure]

/-- The bytes of a block that a client may use. -/
def payloadBytes (h : Heap) (b : Block) : Set Nat :=
  {i | b.offset + h.headerSize ≤ i ∧ i < b.offset + b.size}

/-- No header lies in the payload of a block. -/
theorem Laid.payload_clear (laid : h.Laid blocks) (member : b ∈ blocks) {es : List Entry}
    (listed : es ⊆ blocks.map toEntry) :
    Clear (h.payloadBytes b) (es ++ [h.marker]) := by
  obtain ⟨high, _, header⟩ := laid.room member
  rintro e inside i low below ⟨above, under⟩
  rcases List.mem_append.1 inside with block | last
  · exact laid.tiles.not_mem_headers member (by omega) (by omega) ⟨e, listed block, low, below⟩
  · obtain rfl := List.mem_singleton.1 last
    have : h.endMarker ≤ i := low
    omega

/-- A heap stays laid out if nothing is written but the payload of a block. -/
theorem Laid.of_payload {h' : Heap} (laid : h.Laid blocks) (member : b ∈ blocks)
    (alters : Alters (h.payloadBytes b) h h')
    (head : h'.headLink = h.headLink) : h'.Laid blocks := by
  refine ⟨laid.formed.of_alike alters.toAlike alters.region.sameBase alters.region.sameSize, ?_, ?_,
    laid.settled, ?_, ?_, ?_⟩
  · rw [alters.start, alters.endMarker]
    exact laid.tiles
  · rw [headerSize, alters.settings]
    exact laid.sizes
  · rw [marker, alters.endMarker]
    exact alters.leads_of_clear head laid.leads (laid.payload_clear member (roster_subset false blocks))
  · intro e listed
    have single : [e] ⊆ blocks.map toEntry :=
      List.cons_subset.2 ⟨roster_subset true blocks listed, List.nil_subset _⟩
    exact alters.stamped_of_clear (laid.stamped e listed) fun x same =>
      laid.payload_clear member single x (List.mem_append_left _ same)
  · rw [alters.usage]
    exact laid.counted

/-- Neither the other counters nor the hook matter. -/
theorem Laid.recount (laid : h.Laid blocks) {usage : Usage} (hook : Option Hook)
    (free : usage.free = h.usage.free) : ({ h with usage, hook } : Heap).Laid blocks := by
  obtain ⟨⟨valid, aligned, inside⟩, tiles, sizes, settled, ⟨head, chained⟩, stamped, counted⟩ := laid
  exact ⟨⟨valid, aligned, inside⟩, tiles, sizes, settled, ⟨head, chained⟩, stamped,
    free.trans counted⟩

/-! ## A new heap -/

/-- The usable size is a multiple of the alignment, has room for a block, and leaves room for the end
marker. -/
theorem usableSize_spec {region : Region} {settings : Settings} {start : Nat} (valid : settings.Valid)
    (large : requiredSize settings start ≤ region.size) :
    settings.alignment ∣ usableSize region settings start ∧
      settings.headerSize + settings.alignment ≤ usableSize region settings start ∧
      start + usableSize region settings start + settings.headerSize ≤ region.size := by
  unfold requiredSize at large
  have whole : settings.alignment ∣ settings.headerSize + settings.alignment :=
    Nat.dvd_add valid.dvd_headerSize (Nat.dvd_refl _)
  have below : settings.headerSize + settings.alignment ≤ region.size - start - settings.headerSize := by
    omega
  have cut := Nat.div_mul_le_self (region.size - start - settings.headerSize) settings.alignment
  refine ⟨Nat.dvd_mul_left _ _, ?_, ?_⟩
  · rw [← Nat.div_mul_cancel whole]
    exact Nat.mul_le_mul_right _ (Nat.div_le_div_right below)
  · unfold usableSize Word.roundDown
    omega

/-- A new heap is one free block. -/
theorem laid_layOut {region : Region} {settings : Settings} {start : Nat} (overflow : Overflow)
    (valid : settings.Valid) (aligned : settings.alignment ∣ region.base + start)
    (large : requiredSize settings start ≤ region.size) :
    (layOut region settings overflow start).Laid
        [{ offset := start, size := usableSize region settings start, live := false }] ∧
      (layOut region settings overflow start).region.base = region.base ∧
      (layOut region settings overflow start).region.size = region.size := by
  obtain ⟨multiple, wide, fits⟩ := usableSize_spec valid large
  have header := settings.sixteen_le_headerSize
  have limit : region.size < 0x8000000000000000 := region.sizeLt
  let blank : Heap :=
    { region, settings, start, endMarker := start + usableSize region settings start, headLink := 0
      usage := Usage.start (usableSize region settings start), hook := none, overflow }
  let block : Block := { offset := start, size := usableSize region settings start, live := false }
  have tiles : Tiles 0 blank.start [block] blank.endMarker := by
    refine ⟨rfl, ?_, ?_⟩
    · change 16 ≤ 0 + usableSize region settings start
      omega
    · change start + (0 + usableSize region settings start) = start + usableSize region settings start
      omega
  have sizes : ∀ b ∈ [block], settings.alignment ∣ b.size ∧
      settings.headerSize + settings.alignment ≤ b.size := by
    intro b member
    obtain rfl := List.mem_singleton.1 member
    exact ⟨multiple, wide⟩
  have places := isPlace_of_tiles tiles fun b member => (sizes b member).1
  have inside : blank.endMarker + 16 ≤ blank.region.size := by
    change start + usableSize region settings start + 16 ≤ region.size
    omega
  -- First the header of the end marker is written, then the one of the only block.
  have unlisted : Chained (code settings) blank.region none [] := trivial
  have marked := chained_putHeader (e := blank.marker) inside unlisted (fun o absurd => by cases absurd)
    inside (Nat.two_pow_pos 63) fun x _ y absurd => by cases absurd
  have alters := alters_putHeader (h := blank) blank.marker 0 .free none
  have size := alters.region.sameSize
  have apart : HeadersApart [block.toEntry] [blank.marker] := by
    intro x left y right
    obtain rfl := List.mem_singleton.1 left
    obtain rfl := List.mem_singleton.1 right
    refine Or.inl ?_
    change start + 16 ≤ start + usableSize region settings start
    omega
  have listed := chained_putHeader (e := block.toEntry) (alters.inside inside) marked
    (fun o same => by
      obtain rfl := Option.some.inj same
      exact alters.isPlace places.2)
    (by rw [size]; change start + 16 ≤ region.size; omega)
    (by change usableSize region settings start < 0x8000000000000000; omega) apart
  have base_eq : (layOut region settings overflow start).region.base = region.base := by
    simp [layOut]
  have sameSize : (layOut region settings overflow start).region.size = region.size := by
    simp [layOut]
  refine ⟨⟨⟨valid, ?_, ?_⟩, tiles, sizes, List.IsChain.singleton _, ⟨rfl, listed⟩, ?_, ?_⟩, base_eq,
    sameSize⟩
  · rw [base_eq]
    exact aligned
  · rw [sameSize]
    exact fits
  · intro e member
    cases member
  · rfl

/-- A heap is created only with valid settings, in a region that is large enough. -/
theorem layOut_of_create {region : Region} {settings : Settings} {overflow : Overflow}
    (created : create region settings overflow = .ok h) :
    settings.Valid ∧ requiredSize settings (region.alignedStart settings.alignment) ≤ region.size ∧
      layOut region settings overflow (region.alignedStart settings.alignment) = h := by
  unfold create at created
  by_cases valid : settings.Valid
  · rw [Settings.validate, if_pos valid] at created
    by_cases large : requiredSize settings (region.alignedStart settings.alignment) ≤ region.size
    · simp only [if_neg (Nat.not_lt.2 large), Except.ok.injEq] at created
      exact ⟨valid, large, created⟩
    · simp only [if_pos (Nat.not_le.1 large)] at created
      cases created
  · rw [Settings.validate, if_neg valid] at created
    cases created

/-- A new heap is laid out as one free block in its region. -/
theorem laid_create {region : Region} {settings : Settings} {overflow : Overflow}
    (created : create region settings overflow = .ok h) :
    ∃ size, h.Laid [{ offset := h.start, size := size, live := false }] ∧
      h.region.base = region.base ∧ h.region.size = region.size ∧ h.settings = settings := by
  obtain ⟨valid, large, rfl⟩ := layOut_of_create created
  have aligned := region.dvd_base_add_alignedStart valid.alignment_pos
  obtain ⟨laid, base, size⟩ := laid_layOut overflow valid aligned large
  exact ⟨_, laid, base, size, rfl⟩

/-- Nobody has used a new heap. -/
theorem usage_of_create {region : Region} {settings : Settings} {overflow : Overflow}
    (created : create region settings overflow = .ok h) : ∃ n, h.usage = Usage.start n := by
  obtain ⟨_, _, rfl⟩ := layOut_of_create created
  exact ⟨_, rfl⟩

end Heap

end RegionAlloc.Tagged
