import RegionAlloc.Proofs.Tagged.Runs
import RegionAlloc.Proofs.Tagged.Wipe
import RegionAlloc.Proofs.Together

/-!
# Two heaps that are laid out alike

Two heaps with the same blocks, one alignment and equal counters may differ in anything else: in their
canaries, in whether they clear freed memory, in what is stored in their regions. They answer a request
alike and take the same block back alike (`Heap.Matched.tryAllocate`, `Heap.Matched.release`), and so
two clients that hold them stay paired (`Paired`).
-/

namespace RegionAlloc

/-- The grant without what is stored there. -/
def Grant.forget (g : Grant) : Grant :=
  Grant.fresh g.address g.length

namespace Client

variable {σ : Type}

/-- The client without what it knows to be stored in its memory. -/
def forget (s : Client σ) : Client σ :=
  { s with grants := s.grants.map Grant.forget }

/-- The client after bytes were written at an address, of which the ledger takes no note. -/
def overwrite [HasRegion σ] (s : Client σ) (address : Nat) (data : List UInt8) : Client σ :=
  { s with heap := HasRegion.modifyRegion s.heap fun region => region.writeAt address data }

end Client

namespace Tagged

open Block Region

namespace Heap

/-- The two heaps have one alignment, their counters stand alike, and sums that are no words are
treated alike. -/
structure Matched (h k : Heap) : Prop where
  alignment : k.settings.alignment = h.settings.alignment
  usage : k.usage = h.usage
  overflow : k.overflow = h.overflow

/-- How two heaps answer a request alike: neither has a block for it, or both hand out the same one. -/
inductive Answered (h k : Heap) (request : Nat) :
    List Block → Option Nat → Heap → Option Nat → Heap → List Block → Prop
  | refused {blocks : List Block} : Answered h k request blocks none h none k blocks
  | granted {pre post : List Block} {b : Block} {padded : Nat} {h' k' : Heap} (free : b.live = false)
      (padding : h.settings.paddedSize? request = some padded) (fits : padded ≤ b.size)
      (first : Allocated h h' padded pre b post) (second : Allocated k k' padded pre b post) :
      Answered h k request (pre ++ b :: post) (some (h.region.base + (b.offset + h.headerSize))) h'
        (some (k.region.base + (b.offset + k.headerSize))) k'
        (pre ++ (carve 0 h.splitLimit padded b ++ post))

/-- What two heaps come to from the same blocks in the same step: the regions stay as they are, or
both hand out the same block, perhaps with zeros at its front, or both take the same one back. -/
inductive Stepped (h k : Heap) :
    List Block → Option Nat → Heap → Option Nat → Heap → List Block → Prop
  | kept {blocks : List Block} {h' k' : Heap} (same : h'.region = h.region)
      (same' : k'.region = k.region) : Stepped h k blocks none h' none k' blocks
  | granted {pre post : List Block} {b : Block} {padded zeros : Nat} {h' k' : Heap}
      (free : b.live = false) (fits : padded ≤ b.size) (few : h.headerSize + zeros ≤ padded)
      (first : Allocated h h' padded pre b post) (second : Allocated k k' padded pre b post) :
      Stepped h k (pre ++ b :: post) (some (h.region.base + (b.offset + h.headerSize)))
        (Client.zeroedAt zeros (some (h.region.base + (b.offset + h.headerSize))) h')
        (some (k.region.base + (b.offset + k.headerSize)))
        (Client.zeroedAt zeros (some (k.region.base + (b.offset + k.headerSize))) k')
        (pre ++ (carve 0 h.splitLimit padded b ++ post))
  | released {pre post : List Block} {b : Block} {h' k' : Heap} (live : b.live = true)
      (first : Released h h' pre b post ∧ Wiped h h' pre b post)
      (second : Released k k' pre b post ∧ Wiped k k' pre b post) :
      Stepped h k (pre ++ b :: post) none h' none k' (coalesce 0 (pre ++ b.freed :: post))

variable {h h' k k' : Heap} {padded request : Nat} {b : Block} {pre post blocks blocks' : List Block}
  {place place' : Option Nat}

namespace Matched

variable (matched : Matched h k)

include matched

private theorem headerSize_eq : k.headerSize = h.headerSize :=
  congrArg (Word.roundUp 16) matched.alignment

private theorem splitLimit_eq : k.splitLimit = h.splitLimit :=
  congrArg (2 * ·) matched.headerSize_eq

private theorem paddedSize?_eq (request : Nat) :
    k.settings.paddedSize? request = h.settings.paddedSize? request := by
  have header : k.settings.headerSize = h.settings.headerSize := matched.headerSize_eq
  unfold Settings.paddedSize?
  rw [header, matched.alignment]

/-- Heaps that count the same allocation stay matched. -/
theorem of_allocated (first : Allocated h h' padded pre b post)
    (second : Allocated k k' padded pre b post) : Matched h' k' where
  alignment := by
    rw [second.alike.settings, first.alike.settings]
    exact matched.alignment
  usage := by
    have counted := second.counted
    rw [matched.usage, matched.overflow, matched.splitLimit_eq, first.counted] at counted
    exact (Except.ok.inj counted).symm
  overflow := by
    rw [second.alike.overflow, first.alike.overflow]
    exact matched.overflow

/-- Heaps that count the same release stay matched. -/
theorem of_released (first : Released h h' pre b post) (second : Released k k' pre b post) :
    Matched h' k' where
  alignment := by
    rw [second.alike.settings, first.alike.settings]
    exact matched.alignment
  usage := by
    have counted := second.counted
    rw [matched.usage, matched.overflow, first.counted] at counted
    exact (Except.ok.inj counted).symm
  overflow := by
    rw [second.alike.overflow, first.alike.overflow]
    exact matched.overflow

/-- **Heaps laid out alike answer a request alike.** -/
theorem tryAllocate (laid : h.Laid blocks) (laid' : k.Laid blocks) (request : Nat) :
    (Heap.tryAllocate request).Together (Heap.tryAllocate request) h k
      (¬ h.usage.CanAllocate h.overflow)
      fun place h' place' k' => ∃ blocks', Answered h k request blocks place h' place' k' blocks' := by
  rcases nowhere_or_first h.settings blocks request with
    nowhere | ⟨pre, b, post, padded, rfl, free, positive, padding, fits, first⟩
  · have nowhere' := nowhere
    simp only [← matched.paddedSize?_eq] at nowhere'
    apply Call.Together.of_ends (tryAllocate_fails laid nowhere) (tryAllocate_fails laid' nowhere')
    intro place h' place' k' left right
    obtain ⟨rfl, rfl⟩ := left
    obtain ⟨rfl, rfl⟩ := right
    exact ⟨blocks, .refused⟩
  · have padding' := (matched.paddedSize?_eq request).trans padding
    apply Call.Together.of_ensures (tryAllocate_fits laid free positive padding fits first)
      (tryAllocate_fits laid' free positive padding' fits first)
    · intro place h' left full
      apply full
      rw [matched.usage, matched.overflow]
      exact Usage.canAllocate_of_allocate left.2.counted
    · intro place' k' right full
      apply full
      rw [← matched.usage, ← matched.overflow]
      exact Usage.canAllocate_of_allocate right.2.counted
    · intro place h' place' k' left right
      obtain ⟨rfl, allocated⟩ := left
      obtain ⟨rfl, allocated'⟩ := right
      exact ⟨_, .granted free padding fits allocated allocated'⟩

/-- **Heaps laid out alike take the same block back alike.** -/
theorem release (laid : h.Laid (pre ++ b :: post)) (laid' : k.Laid (pre ++ b :: post))
    (live : b.live = true) :
    (Heap.release (h.region.base + (b.offset + h.headerSize))).Together
      (Heap.release (k.region.base + (b.offset + k.headerSize))) h k
      (¬ h.usage.CanFree h.overflow) fun _ h' _ k' =>
        (Released h h' pre b post ∧ Wiped h h' pre b post) ∧
          Released k k' pre b post ∧ Wiped k k' pre b post := by
  apply Call.Together.of_ensures (release_wipes laid live) (release_wipes laid' live)
  · intro _ h' left full
    apply full
    rw [matched.usage, matched.overflow]
    exact Usage.room_of_add (left.1.returned laid).frees
  · intro _ k' right full
    apply full
    rw [← matched.usage, ← matched.overflow]
    exact Usage.room_of_add (right.1.returned laid').frees
  · intro _ h' _ k' left right
    exact ⟨left, right⟩

end Matched

/-- So many bytes from an address on lie in the payload of a live block. -/
def InPayload (h : Heap) (address length : Nat) : Prop :=
  ∃ blocks, h.Shows h.start blocks ∧ ∃ b ∈ blocks, b.live = true ∧
    h.region.base + (b.offset + h.headerSize) ≤ address ∧
      address + length ≤ h.region.base + (b.offset + b.size)

end Heap

variable {h h' k k' : Heap} {s t : Client Heap} {padded request zeros : Nat} {b : Block}
  {pre post blocks blocks' : List Block} {place place' : Option Nat} {grant : Nat → Grant}

/-- A ledger without stored bytes does not depend on the bytes of the region. -/
theorem Backed.of_forget {lead gap : Nat} {r r' : Region} {used : List Entry} {grants : List Grant}
    (backed : Backed lead gap r used (grants.map Grant.forget)) (base : r'.base = r.base) :
    Backed lead gap r' used (grants.map Grant.forget) where
  matched := by
    rw [base]
    exact backed.matched
  fits := by
    rw [base]
    exact backed.fits
  kept g member i v stored := by
    obtain ⟨_, _, rfl⟩ := List.mem_map.1 member
    cases stored

private theorem forget_filter (grants : List Grant) (address : Nat) :
    (grants.filter fun g => g.address != address).map Grant.forget
      = (grants.map Grant.forget).filter fun g => g.address != address := by
  rw [List.filter_map]
  rfl

/-- A write into the payload of a block changes nothing that a ledger without stored bytes says. -/
theorem Held.overwrite (held : Held h s.forget blocks) (member : b ∈ blocks) {address : Nat}
    {data : List UInt8} (low : s.heap.region.base + (b.offset + s.heap.headerSize) ≤ address)
    (high : address + data.length ≤ s.heap.region.base + (b.offset + b.size)) :
    Held h (s.overwrite address data).forget blocks := by
  obtain ⟨laid, backed, same⟩ := held
  have alters : Heap.Alters (s.heap.payloadBytes b) s.heap (s.overwrite address data).heap := by
    refine ⟨⟨rfl, rfl, rfl, rfl, rfl⟩, agreesOff_writeBytes fun i above below => ?_, rfl⟩
    exact ⟨by omega, by omega⟩
  have base := alters.region.sameBase
  exact ⟨laid.of_payload member alters rfl, Backed.of_forget backed base,
    same.of_alike alters.toAlike base⟩

/-- A block that is handed out extends the ledger, also if zeros are written into it first. -/
theorem Held.granted_zeros (held : Held h s.forget (pre ++ b :: post))
    (allocated : Heap.Allocated s.heap h' padded pre b post) (free : b.live = false)
    (padding : s.heap.settings.paddedSize? request = some padded) (fits : padded ≤ b.size)
    (few : zeros ≤ request) (plain : ∀ address, (grant address).forget = Grant.fresh address request)
    {address : Nat} (place : address = s.heap.region.base + (b.offset + s.heap.headerSize)) :
    Held h (Client.forget
      { heap := Client.zeroedAt zeros (some address) h', grants := grant address :: s.grants })
      (pre ++ (carve 0 s.heap.splitLimit padded b ++ post)) := by
  subst place
  obtain ⟨_, covers, _⟩ := Settings.paddedSize?_eq_some held.laid.formed.valid padding
  have granted := held.granted allocated free padding fits
  rw [← plain] at granted
  have member : taken s.heap.splitLimit padded b
      ∈ pre ++ (carve 0 s.heap.splitLimit padded b ++ post) :=
    List.mem_append_right _ List.mem_cons_self
  have base : h'.region.base = s.heap.region.base := allocated.region.sameBase
  refine Held.overwrite (s := { heap := h', grants := grant _ :: s.grants }) granted member ?_ ?_
  · change h'.region.base + (b.offset + h'.headerSize) ≤ _
    rw [base, allocated.alike.headerSize_eq]
  · have enough : padded ≤ takenSize s.heap.splitLimit padded b.size := le_takenSize fits
    change _ ≤ h'.region.base + (b.offset + takenSize s.heap.splitLimit padded b.size)
    rw [List.length_replicate, base]
    unfold Heap.headerSize
    change request + s.heap.settings.headerSize ≤ padded at covers
    omega

/-- Two clients, each in the place of a heap of its own, hold the same blocks of matched heaps. -/
structure Paired (h k : Heap) (s t : Client Heap) (blocks : List Block) : Prop where
  first : Held h s.forget blocks
  second : Held k t.forget blocks
  matched : s.heap.Matched t.heap

/-- Both clients came through the same step, which gave them these places, and are paired again. -/
def Advanced (h k : Heap) (s t : Client Heap) (blocks : List Block) (place : Option Nat)
    (s' : Client Heap) (place' : Option Nat) (t' : Client Heap) : Prop :=
  ∃ blocks', Paired h k s' t' blocks' ∧
    Heap.Stepped s.heap t.heap blocks place s'.heap place' t'.heap blocks'

namespace Paired

variable (paired : Paired h k s t blocks)

include paired

private theorem answered
    (answered : Heap.Answered s.heap t.heap request blocks place h' place' k' blocks')
    (few : zeros ≤ request)
    (plain : ∀ address, (grant address).forget = Grant.fresh address request) :
    Advanced h k s t blocks place
      { heap := Client.zeroedAt zeros place h', grants := (place.map grant).toList ++ s.grants } place'
      { heap := Client.zeroedAt zeros place' k'
        grants := (place'.map grant).toList ++ t.grants } := by
  cases answered with
  | refused =>
    exact ⟨blocks, ⟨paired.first, paired.second, paired.matched⟩, .kept rfl rfl⟩
  | @granted pre post b padded _ _ free padding fits first second =>
    obtain ⟨held, held', matched⟩ := paired
    have padding' := (matched.paddedSize?_eq request).trans padding
    have counted := matched.of_allocated first second
    obtain ⟨_, covers, _⟩ := Settings.paddedSize?_eq_some held.laid.formed.valid padding
    have pieces : carve 0 t.heap.splitLimit padded b = carve 0 s.heap.splitLimit padded b := by
      rw [matched.splitLimit_eq]
    refine ⟨_, ⟨held.granted_zeros first free padding fits few plain rfl, ?_,
      ⟨counted.alignment, counted.usage, counted.overflow⟩⟩, ?_⟩
    · rw [← pieces]
      exact held'.granted_zeros second free padding' fits few plain rfl
    · refine .granted free fits ?_ first second
      change request + s.heap.settings.headerSize ≤ padded at covers
      unfold Heap.headerSize
      omega

/-- A request is answered alike, and the front of what it gives may be overwritten with zeros. -/
theorem allocate (few : zeros ≤ request)
    (plain : ∀ address, (grant address).forget = Grant.fresh address request) :
    (Heap.tryAllocate request).Together (Heap.tryAllocate request) s.heap t.heap
      (¬ s.heap.usage.HasRoom s.heap.overflow) fun place h' place' k' =>
        Advanced h k s t blocks place
          { heap := Client.zeroedAt zeros place h', grants := (place.map grant).toList ++ s.grants }
          place'
          { heap := Client.zeroedAt zeros place' k'
            grants := (place'.map grant).toList ++ t.grants } := by
  apply (paired.matched.tryAllocate paired.first.laid paired.second.laid request).mono
    (mt Usage.HasRoom.canAllocate)
  intro place h' place' k' answered
  obtain ⟨blocks', answered⟩ := answered
  exact paired.answered answered few plain

/-- An attempt answers both clients alike. -/
theorem tryAllocate (request : Nat) :
    (Heap.tryAllocate request).Together (Heap.tryAllocate request) s.heap t.heap
      (¬ s.heap.usage.HasRoom s.heap.overflow) fun place h' place' k' =>
        Advanced h k s t blocks place
          { heap := h', grants := (place.map (Grant.fresh · request)).toList ++ s.grants } place'
          { heap := k', grants := (place'.map (Grant.fresh · request)).toList ++ t.grants } := by
  have allocates := paired.allocate (Nat.zero_le request) fun address =>
    (rfl : (Grant.fresh address request).forget = Grant.fresh address request)
  have unchanged : ∀ (place : Option Nat) (h : Heap), Client.zeroedAt 0 place h = h := by
    intro place h
    cases place <;> rfl
  simpa only [unchanged] using allocates

end Paired

private theorem Held.released_forget (held : Held h s.forget (pre ++ b :: post))
    (released : Heap.Released s.heap h' pre b post) (live : b.live = true) {address : Nat}
    (place : address = s.heap.region.base + (b.offset + s.heap.headerSize)) :
    Held h (Client.forget { heap := h', grants := s.grants.filter fun g => g.address != address })
      (coalesce 0 (pre ++ b.freed :: post)) := by
  subst place
  unfold Client.forget
  rw [forget_filter]
  exact held.released released live

private theorem Paired.released {address address' : Nat} (paired : Paired h k s t (pre ++ b :: post))
    (live : b.live = true) (first : Heap.Released s.heap h' pre b post)
    (second : Heap.Released t.heap k' pre b post)
    (place : address = s.heap.region.base + (b.offset + s.heap.headerSize))
    (place' : address' = t.heap.region.base + (b.offset + t.heap.headerSize)) :
    Paired h k { heap := h', grants := s.grants.filter fun g => g.address != address }
      { heap := k', grants := t.grants.filter fun g => g.address != address' }
      (coalesce 0 (pre ++ b.freed :: post)) where
  first := paired.first.released_forget first live place
  second := paired.second.released_forget second live place'
  matched := paired.matched.of_released first second

/-- The heap of a client stays at its address. -/
theorem Held.base_eq (held : Held h s.forget blocks) : s.heap.region.base = h.region.base :=
  held.same.base

/-- Nothing is struck off the ledger with the null address. -/
theorem Held.filter_null (held : Held h s.forget blocks) :
    Held h (Client.forget { s with grants := s.grants.filter fun g => g.address != 0 }) blocks := by
  have positive := s.heap.region.basePos
  have foreign : ∀ e ∈ roster true blocks,
      0 ≠ s.heap.region.base + (e.offset + s.heap.headerSize) := by
    intro e _
    omega
  have kept := held.backed.filter_eq_self foreign
  unfold Client.forget
  rw [forget_filter]
  change Held h { s with grants := List.filter _ s.forget.grants } blocks
  rw [kept]
  exact held

namespace Paired

variable (paired : Paired h k s t blocks)

include paired

/-- What the one client holds at some distance from the start of the region, the other one holds at
the same distance, and both give it back alike. -/
theorem giveBack {offset : Nat} (owned : ∃ g ∈ s.grants, g.address = h.region.base + offset) :
    (∃ g ∈ t.grants, g.address = k.region.base + offset) ∧
      (Client.giveBack (h.region.base + offset)).Together (Client.giveBack (k.region.base + offset))
        s t (¬ s.heap.usage.HasRoom s.heap.overflow) (Advanced h k s t blocks) := by
  obtain ⟨held, held', matched⟩ := paired
  have base := held.base_eq
  have base' := held'.base_eq
  -- The one ledger leads to a live block, and the block to the other ledger.
  obtain ⟨g, member, place⟩ := owned
  obtain ⟨e, listed, start, _⟩ := held.backed.fits g.forget (List.mem_map_of_mem member)
  change g.address = s.heap.region.base + (e.offset + s.heap.headerSize) at start
  obtain ⟨b, inside, live, rfl⟩ := mem_roster.1 listed
  have here : h.region.base + offset = s.heap.region.base + (b.offset + s.heap.headerSize) :=
    place.symm.trans start
  have there : k.region.base + offset = t.heap.region.base + (b.offset + t.heap.headerSize) := by
    rw [matched.headerSize_eq]
    omega
  constructor
  · obtain ⟨f, known, same⟩ := List.mem_map.1 (held'.backed.mem_addresses.2 ⟨_, listed, there⟩)
    obtain ⟨g', member', rfl⟩ := List.mem_map.1 known
    exact ⟨g', member', same⟩
  · obtain ⟨pre, post, rfl⟩ := List.append_of_mem inside
    apply Client.together_giveBack
    rw [here, there]
    apply (matched.release held.laid held'.laid live).mono (mt Usage.HasRoom.canFree)
    intro _ h' _ k' released
    exact ⟨_, Paired.released ⟨held, held', matched⟩ live released.1.1 released.2.1 rfl rfl,
      .released live released.1 released.2⟩

/-- To give back nothing is to do nothing on both sides. -/
theorem giveBack_null {stop : Prop} :
    (Client.giveBack 0).Together (Client.giveBack 0) s t stop (Advanced h k s t blocks) := by
  apply Client.together_giveBack
  apply Call.Together.of_ends (Heap.release_null _) (Heap.release_null _)
  intro _ h' _ k' left right
  subst left right
  exact ⟨blocks, ⟨paired.first.filter_null, paired.second.filter_null, paired.matched⟩,
    .kept rfl rfl⟩

/-- Neither the hooks nor the other counters matter, as long as these stay alike. -/
theorem recount {usage usage' : Usage} (hook hook' : Option Hook)
    (free : usage.free = s.heap.usage.free) (same : usage' = usage) :
    Advanced h k s t blocks none { s with heap := { s.heap with usage, hook } } none
      { t with heap := { t.heap with usage := usage', hook := hook' } } := by
  have free' : usage'.free = t.heap.usage.free := by
    rw [same, paired.matched.usage]
    exact free
  exact ⟨blocks, ⟨paired.first.recount hook free, paired.second.recount hook' free',
    ⟨paired.matched.alignment, same, paired.matched.overflow⟩⟩, .kept rfl rfl⟩

/-- The same step on both sides gives memory at the same distance from the start of the region. -/
theorem offset {s' t' : Client Heap} (advanced : Advanced h k s t blocks place s' place' t') :
    ∃ offset : Option Nat, place = offset.map (h.region.base + ·) ∧
      place' = offset.map (k.region.base + ·) := by
  obtain ⟨blocks', _, stepped⟩ := advanced
  rw [← paired.first.base_eq, ← paired.second.base_eq]
  generalize s'.heap = h', t'.heap = k' at stepped
  cases stepped with
  | kept same same' => exact ⟨none, rfl, rfl⟩
  | @granted pre post b padded zeros h' k' free fits few first second =>
    refine ⟨some (b.offset + s.heap.headerSize), rfl, ?_⟩
    rw [paired.matched.headerSize_eq]
    rfl
  | released live first second => exact ⟨none, rfl, rfl⟩

end Paired

private theorem Held.write (held : Held h s.forget blocks) {address : Nat} {data : List UInt8}
    (inside : s.heap.InPayload address data.length) :
    Held h (s.overwrite address data).forget blocks := by
  obtain ⟨shown, shows, b, member, _, low, high⟩ := inside
  obtain rfl := held.laid.shows.unique shows
  exact held.overwrite member low high

/-- A write of the first client into its own memory keeps the two paired. -/
theorem Paired.first_writes (paired : Paired h k s t blocks) {address : Nat} {data : List UInt8}
    (inside : s.heap.InPayload address data.length) :
    Paired h k (s.overwrite address data) t blocks where
  first := paired.first.write inside
  second := paired.second
  matched := ⟨paired.matched.alignment, paired.matched.usage, paired.matched.overflow⟩

/-- So does one of the second client. -/
theorem Paired.second_writes (paired : Paired h k s t blocks) {address : Nat} {data : List UInt8}
    (inside : t.heap.InPayload address data.length) :
    Paired h k s (t.overwrite address data) blocks where
  first := paired.first
  second := paired.second.write inside
  matched := ⟨paired.matched.alignment, paired.matched.usage, paired.matched.overflow⟩

/-- What the client asked for lies in the payloads of its live blocks. -/
theorem Held.inPayload (held : Held h s.forget blocks) {g : Grant} (member : g ∈ s.grants) :
    s.heap.InPayload g.address g.length := by
  obtain ⟨e, listed, place, room⟩ := held.backed.fits g.forget (List.mem_map_of_mem member)
  obtain ⟨b, inside, live, rfl⟩ := mem_roster.1 listed
  change g.address = s.heap.region.base + (b.offset + s.heap.headerSize) at place
  change s.heap.headerSize + g.length ≤ 0 + b.size at room
  exact ⟨blocks, held.laid.shows, b, inside, live, by omega, by omega⟩

variable {region region' : Region} {settings settings' : Settings} {overflow : Overflow}

/-- Two new heaps are matched if they start alike in regions of one size. -/
theorem paired_start (created : Heap.create region settings overflow = .ok h)
    (created' : Heap.create region' settings' overflow = .ok k) (size : region'.size = region.size)
    (alignment : settings'.alignment = settings.alignment) (start : k.start = h.start) :
    ∃ blocks, Paired h k (Client.start h) (Client.start k) blocks := by
  obtain ⟨valid, large, rfl⟩ := Heap.layOut_of_create created
  obtain ⟨valid', large', rfl⟩ := Heap.layOut_of_create created'
  change region'.alignedStart settings'.alignment = region.alignedStart settings.alignment at start
  have usable : Heap.usableSize region' settings' (region.alignedStart settings.alignment)
      = Heap.usableSize region settings (region.alignedStart settings.alignment) := by
    unfold Heap.usableSize Settings.headerSize
    rw [size, alignment]
  obtain ⟨laid, _⟩ :=
    Heap.laid_layOut overflow valid (region.dvd_base_add_alignedStart valid.alignment_pos) large
  obtain ⟨laid', _⟩ :=
    Heap.laid_layOut overflow valid' (region'.dvd_base_add_alignedStart valid'.alignment_pos) large'
  rw [start, usable] at laid'
  rw [start]
  exact ⟨_, ⟨laid, Backed.nil _ 0 _, rfl, rfl, rfl, rfl⟩, ⟨laid', Backed.nil _ 0 _, rfl, rfl, rfl, rfl⟩,
    alignment, congrArg Usage.start usable, rfl⟩

end Tagged

end RegionAlloc
