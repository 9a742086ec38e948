import RegionAlloc.Proofs.Tagged.Abreast

/-!
# What clearing leaves of a client's data

Two runs of a heap that clears freed memory go on alike but for what the clients write into live
blocks. The headers are the same on both sides, since the blocks are, and a block is cleared as far as
it reaches before anything else is done with it. So the regions are equal wherever no block is live
(`Twins`), and a block is handed out with the same bytes on both sides
(`freed_memory_is_erased`): nothing tells a client what others stored in memory that they gave back.
-/

namespace RegionAlloc.Tagged

open Block Region

namespace Heap

variable {h h' k k' : Heap} {padded : Nat} {b : Block} {pre post blocks : List Block}
  {changed : Set Nat}

/-- Two heaps that are laid out as the same blocks with the same settings have the same headers. -/
theorem Laid.byte_eq (laid : h.Laid blocks) (laid' : k.Laid blocks)
    (settings : k.settings = h.settings) (endMarker : k.endMarker = h.endMarker) {i : Nat}
    (member : i ∈ headers blocks) : k.region.byte i = h.region.byte i := by
  obtain ⟨e, listed, low, high⟩ := member
  obtain ⟨b, inside, rfl⟩ := List.mem_map.1 listed
  cases live : b.live with
  | false =>
    have free : b.toEntry ∈ roster false blocks := mem_roster.2 ⟨b, inside, live, rfl⟩
    have marker : k.marker = h.marker := by
      unfold Heap.marker
      rw [endMarker]
    have chained := laid'.leads.chained
    rw [settings, marker] at chained
    exact laid.leads.chained.byte_eq chained ⟨b.toEntry, List.mem_append_left _ free, low, high⟩
  | true =>
    have used : b.toEntry ∈ roster true blocks := mem_roster.2 ⟨b, inside, live, rfl⟩
    obtain ⟨_, link, size⟩ := laid.stamped _ used
    obtain ⟨_, link', size'⟩ := laid'.stamped _ used
    rw [settings] at link'
    exact byte_eq_of_words (link'.trans link.symm) (size'.trans size.symm) low high

/-- The payloads of the live blocks. -/
def livePayloads (h : Heap) (blocks : List Block) : Set Nat :=
  {i | ∃ e ∈ roster true blocks, e.offset + h.headerSize ≤ i ∧ i < e.offset + e.size}

private theorem livePayloads_mono {others : List Block}
    (subset : roster true blocks ⊆ roster true others) :
    h.livePayloads blocks ⊆ h.livePayloads others := by
  intro i inside
  obtain ⟨e, member, within⟩ := inside
  exact ⟨e, subset member, within⟩

/-- What is equal before the same block is handed out on both sides is equal afterwards. -/
theorem agreesOff_allocated (agrees : AgreesOff changed h.region k.region)
    (settings : k.settings = h.settings) (endMarker : k.endMarker = h.endMarker)
    (first : Allocated h h' padded pre b post) (second : Allocated k k' padded pre b post) :
    AgreesOff changed h'.region k'.region := by
  have limit : k.splitLimit = h.splitLimit := by
    unfold splitLimit headerSize
    rw [settings]
  have laid := second.laid
  have region := second.region
  rw [limit] at laid region
  have settings' : k'.settings = h'.settings := by
    rw [second.alike.settings, first.alike.settings, settings]
  have endMarker' : k'.endMarker = h'.endMarker := by
    rw [second.alike.endMarker, first.alike.endMarker, endMarker]
  apply agrees.side_by_side first.region region Set.subset_union_left
  intro i header _
  exact first.laid.byte_eq laid settings' endMarker' header

/-- What is equal before the same block is cleared and taken back on both sides is equal afterwards,
and so is what was stored in the block. -/
theorem agreesOff_released
    (agrees : AgreesOff (h.livePayloads (pre ++ b :: post)) h.region k.region)
    (settings : k.settings = h.settings) (endMarker : k.endMarker = h.endMarker)
    (clears : h.settings.clearOnFree = true) (live : b.live = true)
    (first : Released h h' pre b post ∧ Wiped h h' pre b post)
    (second : Released k k' pre b post ∧ Wiped k k' pre b post) :
    AgreesOff (h.livePayloads (coalesce 0 (pre ++ b.freed :: post))) h'.region k'.region := by
  obtain ⟨released, wiped⟩ := first
  obtain ⟨released', wiped'⟩ := second
  have payload : k.payloadBytes b = h.payloadBytes b := by
    unfold payloadBytes headerSize
    rw [settings]
  have clears' : k.settings.clearOnFree = true := by
    rw [settings]
    exact clears
  have region := wiped'.region
  have zero := wiped'.zero clears'
  rw [payload] at region zero
  have settings' : k'.settings = h'.settings := by
    rw [released'.alike.settings, released.alike.settings, settings]
  have endMarker' : k'.endMarker = h'.endMarker := by
    rw [released'.alike.endMarker, released.alike.endMarker, endMarker]
  have marked := agrees.writeBytes (b.offset + 8) (Word.toBytes 8 (b.size + Tag.free.bit))
  rw [← writeWord_def, ← writeWord_def] at marked
  -- From the marked header on only headers and the payload change. The blocks decide the headers,
  -- and the payload is zero on both sides, so it need not count as live any more.
  apply marked.side_by_side wiped.region region
  · intro i inside
    obtain ⟨e, member, within⟩ := inside
    rw [roster_of_live live] at member
    by_cases here : i ∈ h.payloadBytes b
    · exact Or.inr (Or.inr here)
    · refine Or.inl ⟨e, ?_, within⟩
      rw [roster_true_coalesce, roster_true_freed]
      rcases List.mem_append.1 member with before | behind
      · exact List.mem_append_left _ before
      · rcases List.mem_cons.1 behind with rfl | after
        · exact absurd within here
        · exact List.mem_append_right _ after
  · intro i changed _
    rcases changed with header | inside
    · exact released.laid.byte_eq released'.laid settings' endMarker' header
    · rw [zero i inside, wiped.zero clears i inside]

private theorem agreesOff_zeroedAt (agrees : AgreesOff changed h.region k.region) (zeros : Nat)
    (place : Option Nat) : AgreesOff changed (Client.zeroedAt zeros place h).region
      (Client.zeroedAt zeros place k).region := by
  cases place with
  | none => exact agrees
  | some address =>
    change AgreesOff changed (h.region.writeBytes (address - h.region.base) _)
      (k.region.writeBytes (address - k.region.base) _)
    rw [agrees.sameBase]
    exact agrees.writeBytes _ _

/-- What lies in a free block is no payload. -/
theorem Laid.not_mem_livePayloads (laid : h.Laid blocks) (member : b ∈ blocks)
    (free : b.live = false) {i : Nat} (low : b.offset ≤ i) (high : i < b.offset + b.size) :
    i ∉ h.livePayloads blocks := by
  intro inside
  obtain ⟨e, listed, above, below⟩ := inside
  obtain ⟨c, also, live, rfl⟩ := mem_roster.1 listed
  have different : b ≠ c := by
    intro same
    rw [same, live] at free
    cases free
  have apart := laid.tiles.disjoint member also different
  omega

/-- The same step on both sides keeps the regions equal but for the payloads of live blocks. A block
that is handed out then has the same payload on both sides. -/
theorem Stepped.erases {place place' : Option Nat} {blocks' : List Block}
    (stepped : Stepped h k blocks place h' place' k' blocks') (laid : h.Laid blocks)
    (agrees : AgreesOff (h.livePayloads blocks) h.region k.region)
    (settings : k.settings = h.settings) (endMarker : k.endMarker = h.endMarker)
    (clears : h.settings.clearOnFree = true) :
    AgreesOff (h.livePayloads blocks') h'.region k'.region ∧ place' = place ∧
      ∀ address, place = some address → ∃ b ∈ blocks', b.live = true ∧
        address = h.region.base + (b.offset + h.headerSize) ∧
          ∀ i ∈ h.payloadBytes b, k'.region.byte i = h'.region.byte i := by
  cases stepped with
  | kept same same' =>
    rw [same, same']
    exact ⟨agrees, rfl, fun _ absurd => by cases absurd⟩
  | @granted pre post b padded zeros h₁ k₁ free fits few first second =>
    have header : k.headerSize = h.headerSize := congrArg Settings.headerSize settings
    rw [agrees.sameBase, header]
    -- The regions still agree off what was live before, and so in all of the new block.
    have granted := agreesOff_zeroedAt (agreesOff_allocated agrees settings endMarker first second)
      zeros (some (h.region.base + (b.offset + h.headerSize)))
    refine ⟨granted.mono (livePayloads_mono ?_), rfl, ?_⟩
    · rw [roster_true_of_free free, roster_true_carved]
      exact List.append_subset.2 ⟨List.subset_append_left _ _,
        List.subset_append_of_subset_right _ (List.subset_cons_self _ _)⟩
    · intro address same
      obtain rfl := Option.some.inj same
      have member : b ∈ pre ++ b :: post := List.mem_append_right _ List.mem_cons_self
      refine ⟨taken h.splitLimit padded b, List.mem_append_right _ List.mem_cons_self, rfl, rfl, ?_⟩
      intro i inside
      obtain ⟨low, high⟩ := inside
      change b.offset + h.headerSize ≤ i at low
      change i < b.offset + takenSize h.splitLimit padded b.size at high
      have short : takenSize h.splitLimit padded b.size ≤ b.size := takenSize_le fits
      exact granted.sameByte i (laid.not_mem_livePayloads member free (by omega) (by omega))
  | released live first second =>
    exact ⟨agreesOff_released agrees settings endMarker clears live first second, rfl,
      fun _ absurd => by cases absurd⟩

/-- At an address begins the payload of a live block, of which the two heaps store the same. -/
def SharesPayload (h h' k' : Heap) (address : Nat) : Prop :=
  ∃ blocks, h'.Shows h.start blocks ∧ k'.Shows h.start blocks ∧ ∃ b ∈ blocks, b.live = true ∧
    address = h.region.base + (b.offset + h.headerSize) ∧
      ∀ i ∈ h.payloadBytes b, k'.region.byte i = h'.region.byte i

end Heap

/-! ## Twins -/

variable {region : Region} {settings : Settings} {overflow : Overflow} {h : Heap}
  {s s' t t' : Client Heap} {m n : Numbered} {blocks blocks' : List Block} {place place' : Option Nat}

/-- Two clients that began with one heap are paired, and their regions are equal but for the payloads
of the live blocks. -/
structure Twins (h : Heap) (s t : Client Heap) (blocks : List Block) : Prop
    extends Paired h h s t blocks where
  region : AgreesOff (h.livePayloads blocks) s.heap.region t.heap.region

/-- A write into the payload of a live block changes nothing elsewhere. -/
theorem Held.agreesOff_overwrite (held : Held h s.forget blocks) {address : Nat}
    {data : List UInt8} (inside : s.heap.InPayload address data.length) :
    AgreesOff (h.livePayloads blocks) s.heap.region (s.overwrite address data).heap.region := by
  obtain ⟨shown, shows, b, member, live, low, high⟩ := inside
  obtain rfl := held.laid.shows.unique shows
  have header : s.heap.headerSize = h.headerSize := held.same.headerSize_eq
  apply agreesOff_writeBytes
  intro i above below
  exact ⟨b.toEntry, mem_roster.2 ⟨b, member, live, rfl⟩, by omega, by omega⟩

namespace Twins

variable (twins : Twins h s t blocks)

include twins

private theorem first_writes {address : Nat} {data : List UInt8}
    (inside : s.heap.InPayload address data.length) :
    Twins h (s.overwrite address data) t blocks where
  toPaired := twins.toPaired.first_writes inside
  region := (twins.first.agreesOff_overwrite inside).symm.trans twins.region

private theorem second_writes {address : Nat} {data : List UInt8}
    (inside : t.heap.InPayload address data.length) :
    Twins h s (t.overwrite address data) blocks where
  toPaired := twins.toPaired.second_writes inside
  region := twins.region.trans (twins.second.agreesOff_overwrite inside)

/-- **A step keeps twins twins.** What it hands out is the same on both sides, down to what is stored
there. -/
theorem advanced (clears : h.settings.clearOnFree = true)
    (advanced : Advanced h h s t blocks place s' place' t') :
    (∃ blocks', Twins h s' t' blocks') ∧ place' = place ∧
      ∀ address, place = some address → Heap.SharesPayload h s'.heap t'.heap address := by
  obtain ⟨⟨held, held', _⟩, region⟩ := twins
  obtain ⟨blocks', paired, stepped⟩ := advanced
  have header : s.heap.headerSize = h.headerSize := held.same.headerSize_eq
  have settings : t.heap.settings = s.heap.settings :=
    held'.same.settings.trans held.same.settings.symm
  have endMarker : t.heap.endMarker = s.heap.endMarker :=
    held'.same.endMarker.trans held.same.endMarker.symm
  have clears' : s.heap.settings.clearOnFree = true :=
    (congrArg Settings.clearOnFree held.same.settings).trans clears
  have live : ∀ blocks, s.heap.livePayloads blocks = h.livePayloads blocks := by
    intro blocks
    unfold Heap.livePayloads
    rw [header]
  obtain ⟨after, same, shares⟩ := stepped.erases held.laid (by rwa [live]) settings endMarker clears'
  rw [live] at after
  refine ⟨⟨blocks', paired, after⟩, same, ?_⟩
  intro address given
  obtain ⟨b, member, used, start, bytes⟩ := shares address given
  rw [held.base_eq, header] at start
  refine ⟨blocks', paired.first.shows, paired.second.shows, b, member, used, start, ?_⟩
  unfold Heap.payloadBytes at bytes ⊢
  rwa [header] at bytes

end Twins

/-- Clients abreast of one heap that clears freed memory are twins. -/
theorem Abreast.twins (twins : Twins h (Client.start h) (Client.start h) blocks)
    (clears : h.settings.clearOnFree = true) (abreast : Abreast h h m n) :
    ∃ blocks', Twins h m.client n.client blocks' := by
  induction abreast with
  | start => exact ⟨blocks, twins⟩
  | order before first second ih =>
    obtain ⟨blocks', twins'⟩ := ih
    obtain ⟨level, _⟩ := before.paired twins.toPaired
    obtain ⟨_, _, advanced, _⟩ := twins'.toPaired.advanced_of_obey? level first second
    exact (twins'.advanced clears advanced).1
  | firstWrites before inside ih =>
    obtain ⟨blocks', twins'⟩ := ih
    exact ⟨blocks', twins'.first_writes inside⟩
  | secondWrites before inside ih =>
    obtain ⟨blocks', twins'⟩ := ih
    exact ⟨blocks', twins'.second_writes inside⟩

/-- Two clients of the heap `h` can tell nothing that was stored in memory that was given back. They
were given the same addresses, their regions are equal but for the payloads of the live blocks, and
the next order comes to the same for both, down to what is stored in the block that it gives. -/
structure Indistinct (h : Heap) (m n : Numbered) : Prop where
  given : n.given = m.given
  erased : ∃ blocks, m.client.heap.Shows h.start blocks ∧ n.client.heap.Shows h.start blocks ∧
    AgreesOff (h.livePayloads blocks) m.client.heap.region n.client.heap.region
  next : ∀ order move, Order.move? m.given order = some move → Legal m.client move →
    Legal n.client move ∧ (perform move).Together (perform move) m.client n.client
      (¬ m.client.heap.usage.HasRoom m.client.heap.overflow) fun place s' place' t' =>
        place' = place ∧
          ∀ address, place = some address → Heap.SharesPayload h s'.heap t'.heap address

/-- **Freed memory is erased for good.** Two runs of a heap that clears it, under the same orders, that
differ only in what the clients write into the payloads of live blocks, cannot be told apart by what
lies anywhere else, or by what is stored in a block when it is handed out. -/
theorem freed_memory_is_erased (created : Heap.create region settings overflow = .ok h)
    (clears : settings.clearOnFree = true) (abreast : Abreast h h m n) : Indistinct h m n := by
  obtain ⟨_, _, _, _, set⟩ := Heap.laid_create created
  rw [← set] at clears
  obtain ⟨_, paired⟩ := paired_start created created rfl rfl rfl
  obtain ⟨⟨offsets, given, given'⟩, _⟩ := abreast.paired paired
  obtain ⟨blocks, twins⟩ := abreast.twins ⟨paired, AgreesOff.refl _ _⟩ clears
  have same : n.given = m.given := given'.trans given.symm
  refine ⟨same, ⟨blocks, twins.first.shows, twins.second.shows, twins.region⟩, ?_⟩
  intro order move asked legal
  obtain ⟨move', asked', legal', together⟩ :=
    twins.toPaired.obey ⟨offsets, given, given'⟩ asked legal
  rw [same, asked] at asked'
  obtain rfl := Option.some.inj asked'
  refine ⟨legal', together.mono id ?_⟩
  intro place s' place' t' advanced
  exact (twins.advanced clears advanced).2

/-- The clients write different secrets into a block, give it back and take it again; then one of them
writes into another block. -/
def secretTurns : List Turn :=
  [.both (.allocate 5), .first 4128 [1, 2, 3, 4, 5], .second 4128 [9], .both (.allocateZeroed 2 9),
    .both (.release 0), .both (.allocate 1), .second 4160 [7]]

set_option maxRecDepth 4000 in
/-- The two clients are given the same, and the next order still comes to the same for both. -/
theorem freed_memory_is_erased_secretTurns : ∃ h m n, Heap.create oddRegion clearing .trap = .ok h ∧
    (m.given, m.client.heap.region.byte 63, n.client.heap.region.byte 63)
      = ([4128, 4160, 4128], 0, 7) ∧ Indistinct h m n := by
  obtain ⟨h, created, taken⟩ : ∃ h, Heap.create oddRegion clearing .trap = .ok h ∧
      (Turn.takeAll? secretTurns (.start h, .start h)).map (fun p =>
        (p.1.given, p.1.client.heap.region.byte 63, p.2.client.heap.region.byte 63))
          = some ([4128, 4160, 4128], 0, 7) :=
    ⟨_, rfl, by decide +kernel⟩
  obtain ⟨p, taken, seen⟩ := Option.map_eq_some_iff.1 taken
  obtain ⟨_, paired⟩ := paired_start created created rfl rfl rfl
  exact ⟨h, p.1, p.2, created, seen,
    freed_memory_is_erased created (by decide) (Abreast.start.turns paired taken)⟩

end RegionAlloc.Tagged
