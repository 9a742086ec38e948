import RegionAlloc.Proofs.Tagged.Runs

/-!
# Releasing what is not held

A tagged heap recognises memory that was given back by the header in front of it: the tag says that
the block is free, and still does after the block was merged with its neighbours and its header is
the header of nothing. Only a header that begins inside the stale one can overwrite the tag. As long
as none does, and the client writes nothing itself, a release of memory that was given back and not
given out again is refused (`double_free_caught`). Where blocks lie sixteen bytes apart, the two
words of a header, none ever does.
-/

namespace RegionAlloc.Tagged

open Block Region

namespace Heap

variable {h h' : Heap} {blocks pre post : List Block} {b : Block} {q o : Nat}

/-! ## Tags of stale headers -/

/-- The word where a header at `q` has its size bears no tag, whether or not a block begins there. -/
def Untagged (h : Heap) (q : Nat) : Prop :=
  (h.region.byte (q + 15)).toNat < 128

private theorem untagged_iff : h.Untagged q ↔ h.region.readWord (q + 8) < 0x8000000000000000 :=
  (h.region.readWord_lt_iff (q + 8)).symm

private theorem Untagged.blockTag (untagged : h.Untagged q) (room : q + 16 ≤ h.region.size) :
    h.blockTag q = .ok .free := by
  rw [blockTag_of_room room, if_pos (untagged_iff.1 untagged)]

private theorem Untagged.of_byte (untagged : h.Untagged q)
    (same : h'.region.byte (q + 15) = h.region.byte (q + 15)) : h'.Untagged q := by
  unfold Untagged at untagged ⊢
  rwa [same]

/-- A header at `o` does not begin inside one at `q`. -/
def Misses (q o : Nat) : Prop :=
  o ≤ q ∨ q + 16 ≤ o

instance (q o : Nat) : Decidable (Misses q o) :=
  inferInstanceAs (Decidable (_ ∨ _))

private theorem untagged_putSize {size : Nat} (misses : Misses q o) (room : o + 16 ≤ h.region.size)
    (small : size < 0x8000000000000000) (untagged : h.Untagged q ∨ o = q) :
    (h.putSize (o + 8) size .free).Untagged q := by
  by_cases same : o = q
  · subst same
    have stored : (h.putSize (o + 8) size .free).region.readWord (o + 8) = size :=
      h.region.readWord_writeWord (by simp only [Tag.bit]; omega) (by omega)
    rw [untagged_iff, stored]
    exact small
  · refine (untagged.resolve_right same).of_byte ?_
    rw [putSize, writeWord_def, byte_writeBytes_of_disjoint]
    rw [Word.length_toBytes]
    unfold Misses at misses
    omega

private theorem untagged_putNext {link : Option Nat} (misses : Misses q o) (untagged : h.Untagged q) :
    (h.putNext (.block o) link).Untagged q := by
  refine untagged.of_byte ?_
  rw [putNext, writeWord_def, byte_writeBytes_of_disjoint]
  rw [Word.length_toBytes]
  unfold Misses at misses
  omega

/-- Zeros bear no tag. -/
theorem untagged_zeros {offset count : Nat} (untagged : h.Untagged q) :
    ({ h with region := h.region.writeBytes offset (List.replicate count 0) } : Heap).Untagged q := by
  unfold Untagged at untagged ⊢
  rw [byte_writeBytes]
  split
  · rw [List.getD_eq_getElem?_getD, List.getElem?_replicate]
    split
    · exact (by decide : (0 : UInt8).toNat < 128)
    · exact untagged
  · exact untagged

/-- The heap `h'` bears no tag at `q` either, and is as large as `h`. -/
structure KeepsUntagged (h h' : Heap) (q : Nat) : Prop where
  untagged : h'.Untagged q
  sameSize : h'.region.size = h.region.size

private theorem KeepsUntagged.trans {h'' : Heap} (first : KeepsUntagged h h' q)
    (second : KeepsUntagged h' h'' q) : KeepsUntagged h h'' q :=
  ⟨second.untagged, second.sameSize.trans first.sameSize⟩

private theorem setSize_untagged {size : Nat} (misses : Misses q o) (room : o + 16 ≤ h.region.size)
    (untagged : h.Untagged q) :
    (setSize o size .free).Ensures h True fun _ h' => KeepsUntagged h h' q := by
  by_cases small : size < 0x8000000000000000
  · exact Call.Ensures.of_run (run_setSize room small)
      ⟨untagged_putSize misses room small (Or.inl untagged), size_putSize _ _ _⟩
  · refine Call.Ensures.change_of_plan (fun _ _ => trivial) fun field planned => ?_
    rw [sizePlace, if_neg small] at planned
    cases planned

private theorem setNext_untagged {anchor : Anchor} {link : Option Nat}
    (misses : ∀ o, anchor = .block o → Misses q o) (untagged : h.Untagged q) :
    (setNext anchor link).Ensures h True fun _ h' => KeepsUntagged h h' q := by
  refine Call.Ensures.change_of_plan (fun _ _ => trivial) fun _ _ => ?_
  cases anchor with
  | head => exact ⟨untagged, rfl⟩
  | block o => exact ⟨untagged_putNext (misses o rfl) untagged, h.region.size_writeWord o _⟩

private theorem clearIfAsked_untagged {size : Nat} (untagged : h.Untagged q) :
    (clearIfAsked o size).Ensures h True fun _ h' => h'.Untagged q := by
  unfold clearIfAsked
  refine Call.Ensures.state_bind ?_
  split
  · exact Call.Ensures.change_of_plan (fun _ _ => trivial) fun _ _ => untagged_zeros untagged
  · exact Call.Ensures.pure untagged

/-- A block that comes into the free list is written to in its header and in that of the entry in
front of it. -/
theorem insertFree_untagged {block : Nat} (misses : Misses q block)
    (room : block + 16 ≤ h.region.size)
    (front : ∀ anchor next, h.placeOf block = .ok (anchor, next) → ∀ p, anchor = .block p →
      Misses q p ∧ p + 16 ≤ h.region.size) (untagged : h.Untagged q) :
    (insertFree block).Ensures h True fun _ h' => h'.Untagged q := by
  refine Call.Ensures.ask_bind_of_answer ?_
  rintro ⟨anchor, next⟩ placed
  have before := front anchor next placed
  -- A merge before the block goes on in the entry in front of it.
  have merge : (mergeBefore anchor block).Ensures h True fun merged h' =>
      (merged = block ∨ anchor = .block merged) ∧ KeepsUntagged h h' q := by
    cases anchor with
    | head => exact Call.Ensures.pure ⟨Or.inl rfl, untagged, rfl⟩
    | block previous =>
      obtain ⟨clear, inside⟩ := before previous rfl
      refine Call.Ensures.ask_bind_of_answer fun touches _ => ?_
      split
      · refine Call.Ensures.ask_bind_of_answer fun size _ => ?_
        refine Call.Ensures.bind (setSize_untagged clear inside untagged) ?_
        intro _ h₁ kept
        exact Call.Ensures.pure ⟨Or.inr rfl, kept⟩
      · exact Call.Ensures.pure ⟨Or.inl rfl, untagged, rfl⟩
  refine Call.Ensures.bind merge ?_
  rintro merged h₁ ⟨which, kept₁⟩
  obtain ⟨clear, inside⟩ : Misses q merged ∧ merged + 16 ≤ h₁.region.size := by
    rw [kept₁.sameSize]
    rcases which with rfl | same
    · exact ⟨misses, room⟩
    · exact before merged same
  have link : (linkAfter merged next).Ensures h₁ True fun _ h' => KeepsUntagged h₁ h' q := by
    refine Call.Ensures.state_bind ?_
    refine Call.Ensures.ask_bind_of_answer fun touches _ => ?_
    split
    · refine Call.Ensures.ask_bind_of_answer fun size _ => ?_
      refine Call.Ensures.ask_bind_of_answer fun after _ => ?_
      refine Call.Ensures.bind (setSize_untagged clear inside kept₁.untagged) ?_
      intro _ h₂ kept₂
      refine (setNext_untagged ?_ kept₂.untagged).mono id fun _ _ kept₃ => kept₂.trans kept₃
      rintro _ ⟨⟩
      exact clear
    · refine setNext_untagged ?_ kept₁.untagged
      rintro _ ⟨⟩
      exact clear
  refine Call.Ensures.bind link ?_
  intro _ h₂ kept₂
  unfold linkFrom
  split
  · exact Call.Ensures.pure kept₂.untagged
  · refine (setNext_untagged ?_ kept₂.untagged).mono id fun _ _ kept₃ => kept₃.untagged
    intro p same
    exact (before p same).1

private theorem release_untagged (laid : h.Laid (pre ++ b :: post)) (live : b.live = true)
    (misses : ∀ c ∈ pre ++ b :: post, Misses q c.offset) (untagged : h.Untagged q ∨ b.offset = q) :
    (release (h.region.base + (b.offset + h.headerSize))).Ensures h True fun _ h' =>
      h'.Untagged q := by
  have limit : h.region.size < 0x8000000000000000 := h.region.sizeLt
  have inside := laid.inside
  have listed : b ∈ pre ++ b :: post := List.mem_append_right pre List.mem_cons_self
  obtain ⟨high, wide, _⟩ := laid.room listed
  have own : Misses q b.offset := misses b listed
  have freed : (h.putSize (b.offset + 8) b.size .free).Untagged q :=
    untagged_putSize own (by omega) (by omega) untagged
  refine release_ensures_of_inserts laid live (clearIfAsked_untagged freed) (fun _ => trivial) ?_
  intro h₁ usage cleared untagged₁ _
  have ready := (ready_of_cleared laid live cleared).recount usage
  have large : h₁.region.size = h.region.size := by
    rw [cleared.alters.region.sameSize, size_putSize]
  have front : ∀ anchor next, ({ h₁ with usage } : Heap).placeOf b.offset = .ok (anchor, next) →
      ∀ p, anchor = .block p → Misses q p ∧ p + 16 ≤ h₁.region.size := by
    intro anchor next placed p same
    have found := ready.placeOf_eq.symm.trans placed
    have anchored : anchorFrom .head (roster false pre) = anchor :=
      congrArg Prod.fst (Except.ok.inj found)
    obtain ⟨e, member, place⟩ := exists_of_anchorFrom (anchored.trans same)
    obtain ⟨c, listed, _, rfl⟩ := mem_roster.1 member
    have before : c ∈ pre ++ b :: post := List.mem_append_left _ listed
    obtain ⟨c_high, c_wide, _⟩ := laid.room before
    rw [← place]
    exact ⟨misses c before, by omega⟩
  exact insertFree_untagged own (show b.offset + 16 ≤ h₁.region.size by omega) front untagged₁

/-- **A release of what the client owns leaves no tag** where there was none, and none on the block
that it takes back. -/
theorem release_owned_untagged (laid : h.Laid blocks) (misses : ∀ c ∈ blocks, Misses q c.offset)
    {address : Nat} (owned : address = 0 ∨ ∃ e ∈ roster true blocks,
      address = h.region.base + (e.offset + h.headerSize))
    (untagged : h.Untagged q ∨ address = h.region.base + (q + h.headerSize)) :
    (release address).Ensures h True fun _ h' => h'.Untagged q := by
  rcases owned with rfl | ⟨e, listed, rfl⟩
  · have positive := h.region.basePos
    have bare : h.Untagged q := untagged.resolve_right (by omega)
    refine (release_null h).mono False.elim ?_
    rintro _ _ rfl
    exact bare
  · obtain ⟨pre, b, post, rfl, live, rfl⟩ := exists_parts listed
    refine release_untagged laid live misses (untagged.imp_right fun same => ?_)
    omega

/-- **An allocation leaves no tag** where there was none, unless it hands out the block there. -/
theorem tryAllocate_untagged (laid : h.Laid blocks) (untagged : h.Untagged q) (request : Nat) :
    (tryAllocate request).Ensures h True fun place h' => ∃ blocks', h'.Laid blocks' ∧
      ((∀ c ∈ blocks', Misses q c.offset) →
        h'.Untagged q ∨ place = some (h.region.base + (q + h.headerSize))) := by
  refine (tryAllocate_ensures laid request).mono (fun _ => trivial) ?_
  intro place h' allocation
  cases allocation with
  | refused nowhere => exact ⟨blocks, laid, fun _ => Or.inl untagged⟩
  | @granted pre post b padded _ parts free padding fits first allocated =>
    subst parts
    refine ⟨_, allocated.laid, fun misses => ?_⟩
    have limit : h'.region.size < 0x8000000000000000 := h'.region.sizeLt
    have inside := allocated.laid.inside
    by_cases here : ∃ c ∈ pre ++ (carve 0 h.splitLimit padded b ++ post), c.offset = q
    · obtain ⟨c, listed, rfl⟩ := here
      obtain ⟨high, wide, header⟩ := allocated.laid.room listed
      cases live : c.live
      · -- A free block bears no tag.
        have entry := mem_roster.2 ⟨c, listed, live, rfl⟩
        have word := allocated.laid.chained.size_of_mem entry
        refine Or.inl (untagged_iff.2 ?_)
        rw [word]
        omega
      · -- A live block is the one handed out, for the others were tagged before.
        have entry := mem_roster.2 ⟨c, listed, live, rfl⟩
        rw [roster_true_carved] at entry
        have known : c.toEntry ∉ roster true (pre ++ b :: post) := by
          intro old
          have stamped := laid.stamped c.toEntry old
          have word := untagged_iff.1 untagged
          rw [stamped.size] at word
          omega
        rw [roster_true_of_free free] at known
        rcases List.mem_append.1 entry with before | behind
        · exact absurd (List.mem_append_left _ before) known
        · rcases List.mem_cons.1 behind with same | after
          · have offset : c.toEntry.offset = b.offset := same ▸ rfl
            exact Or.inr (by rw [offset])
          · exact absurd (List.mem_append_right _ after) known
    · refine Or.inl (untagged.of_byte (allocated.region.sameByte _ ?_))
      rintro ⟨e, listed, low, below⟩
      obtain ⟨c, member, rfl⟩ := List.mem_map.1 listed
      have clear := misses c member
      have other : c.offset ≠ q := fun same => here ⟨c, member, same⟩
      unfold Misses at clear
      omega

/-- What bears no tag cannot be released. -/
theorem run_release_of_untagged (laid : h.Laid blocks) (place : h.IsPlace q)
    (proper : q < h.endMarker) (untagged : h.Untagged q) :
    (release (h.region.base + (q + h.headerSize))).run h = ⟨.error (.notAllocated q), h, []⟩ := by
  have inside := laid.formed.inside
  have header : 16 ≤ h.headerSize := h.settings.sixteen_le_headerSize
  have offset : h.region.offsetOf? (h.region.base + (q + h.headerSize)) = some (q + h.headerSize) :=
    h.region.offsetOf?_eq_some.2 ⟨rfl, by omega⟩
  have block : h.blockAt? (h.region.base + (q + h.headerSize)) = some q := by
    rw [blockAt?, offset, Option.bind_some, if_pos (by omega)]
    exact congrArg some (by omega)
  have tag : h.blockTag q = .ok .free := untagged.blockTag (by omega)
  have refused : h.releasable (h.region.base + (q + h.headerSize)) = .error (.notAllocated q) := by
    rw [releasable, block]
    simp only [checkPlace, if_pos place, bind, Except.bind,
      if_neg (show ¬ h.endMarker ≤ q by omega), tag]
    rfl
  unfold release
  rw [if_neg (by omega)]
  exact Call.run_ask_bind_of_error refused

/-! ## Headers that stay clear -/

/-- No header begins inside the one at `q`: all lie at least sixteen bytes apart, or those that the
heap shows happen to. -/
def Undisturbed (h : Heap) (q : Nat) : Prop :=
  16 ≤ h.settings.alignment ∨ ∃ blocks, h.Shows h.start blocks ∧ ∀ b ∈ blocks, Misses q b.offset

/-- Places for blocks lie an alignment apart. -/
theorem IsPlace.misses (place : h.IsPlace q) (other : h.IsPlace o) (wide : 16 ≤ h.settings.alignment) :
    Misses q o := by
  obtain ⟨low, _, distance⟩ := place
  obtain ⟨low', _, distance'⟩ := other
  by_cases behind : o ≤ q
  · exact Or.inl behind
  · have apart : h.settings.alignment ∣ o - h.start - (q - h.start) :=
      Nat.dvd_sub (Nat.dvd_of_mod_eq_zero distance') (Nat.dvd_of_mod_eq_zero distance)
    have far := Nat.le_of_dvd (by omega) apart
    exact Or.inr (by omega)

private theorem Laid.misses (laid : h.Laid blocks) (place : h.IsPlace q)
    (undisturbed : h.Undisturbed q) :
    ∀ c ∈ blocks, Misses q c.offset := by
  intro c listed
  rcases undisturbed with wide | ⟨shown, shows, clear⟩
  · exact place.misses (laid.isPlace listed) wide
  · obtain rfl := laid.shows.unique shows
    exact clear c listed

/-- The offset of the header in front of the memory at an address. -/
def headerOf (h : Heap) (address : Nat) : Nat :=
  address - (h.region.base + h.headerSize)

end Heap

/-! ## Runs -/

variable {region : Region} {settings : Settings} {overflow : Overflow} {h : Heap}
  {s s₁ : Client Heap} {blocks : List Block} {p q : Nat}

/-- A legal move by which the client writes nothing itself. -/
def Quiet (s : Client Heap) (move : Move) : Prop :=
  Legal s move ∧ ClientMove.isCall move = true

instance (s : Client Heap) (move : Move) : Decidable (Quiet s move) :=
  inferInstanceAs (Decidable (_ ∧ _))

/-- The memory at `p` lies behind a header at `q`. -/
structure Behind (h : Heap) (p q : Nat) : Prop where
  address : p = h.region.base + (q + h.headerSize)
  place : h.IsPlace q
  proper : q < h.endMarker

private theorem Behind.headerOf_eq (behind : Behind h p q) : h.headerOf p = q := by
  have address := behind.address
  unfold Heap.headerOf
  omega

private theorem Behind.of_same {h' : Heap} (behind : Behind h p q) (same : SamePlace h h') :
    Behind h' p q := by
  obtain ⟨address, place, proper⟩ := behind
  refine ⟨?_, same.isPlace place, ?_⟩
  · rw [Heap.headerSize, same.base, same.settings]
    exact address
  · rwa [same.endMarker]

/-- What a client holds lies behind a header. -/
theorem Held.exists_behind (held : Held h s blocks) (given : p ∈ s.grants.map Grant.address) :
    ∃ q, Behind h p q := by
  obtain ⟨e, listed, address⟩ := held.backed.mem_addresses.1 given
  obtain ⟨b, inside, _, rfl⟩ := mem_roster.1 listed
  obtain ⟨high, wide, _⟩ := held.laid.room inside
  have behind : Behind s.heap p b.offset := ⟨address, held.laid.isPlace inside, by omega⟩
  have same := held.same
  exact ⟨_, behind.of_same ⟨same.settings.symm, same.start.symm, same.endMarker.symm, same.base.symm⟩⟩

/-- The client holds the memory at `p`, or no tag is at `q`, as long as no header begins inside the
one there. -/
structure Watched (h : Heap) (p q : Nat) (s : Client Heap) (blocks : List Block) : Prop where
  held : Held h s blocks
  marked : (∀ c ∈ blocks, Heap.Misses q c.offset) →
    p ∈ s.grants.map Grant.address ∨ s.heap.Untagged q

private theorem watched_allocate (held : Held h s blocks) (behind : Behind h p q)
    (marked : p ∈ s.grants.map Grant.address ∨ s.heap.Untagged q) (request : Nat) :
    (Heap.tryAllocate request).Ensures s.heap True fun place heap => ∃ blocks', Watched h p q
      { heap, grants := (place.map (Grant.fresh · request)).toList ++ s.grants } blocks' := by
  have kept := (held_allocate held request).mono (fun _ => trivial) fun _ _ => And.left
  rcases marked with listed | untagged
  · refine kept.mono id ?_
    rintro place heap ⟨blocks', held'⟩
    refine ⟨blocks', held', fun _ => Or.inl ?_⟩
    rw [List.map_append]
    exact List.mem_append_right _ listed
  · refine (kept.and (Heap.tryAllocate_untagged held.laid untagged request)).mono id ?_
    rintro place heap ⟨⟨blocks', held'⟩, shown, laid, gave⟩
    obtain rfl := held'.laid.shows.unique laid.shows
    refine ⟨_, held', fun misses => ?_⟩
    rcases gave misses with untagged' | given
    · exact Or.inr untagged'
    · rw [given, (behind.of_same held.same).address]
      exact Or.inl List.mem_cons_self

private theorem watched_release (held : Held h s blocks) (behind : Behind h p q)
    (misses : ∀ c ∈ blocks, Heap.Misses q c.offset)
    (marked : p ∈ s.grants.map Grant.address ∨ s.heap.Untagged q) {address : Nat}
    (owned : address = 0 ∨ ∃ g ∈ s.grants, g.address = address) :
    (Heap.release address).Ensures s.heap True fun _ heap => ∃ blocks', Watched h p q
      { heap, grants := s.grants.filter fun g => g.address != address } blocks' := by
  have kept := (held_release held owned).mono (fun _ => trivial) fun _ _ => And.left
  by_cases taken : s.heap.Untagged q ∨ address = p
  · rw [(behind.of_same held.same).address] at taken
    refine (kept.and (Heap.release_owned_untagged held.laid misses (held.owned owned) taken)).mono id ?_
    rintro _ heap ⟨⟨blocks', held'⟩, untagged⟩
    exact ⟨blocks', held', fun _ => Or.inr untagged⟩
  · obtain ⟨tagged, other⟩ := not_or.1 taken
    obtain ⟨g, listed, rfl⟩ := List.mem_map.1 (marked.resolve_right tagged)
    refine kept.mono id ?_
    rintro _ heap ⟨blocks', held'⟩
    refine ⟨blocks', held', fun _ => Or.inl (List.mem_map_of_mem (List.mem_filter.2 ⟨listed, ?_⟩))⟩
    exact bne_iff_ne.2 (Ne.symm other)

/-- Zeros that are written into the memory granted last put no tag anywhere. -/
theorem watched_allocateZeroed (held : Held h s blocks) (behind : Behind h p q)
    (marked : p ∈ s.grants.map Grant.address ∨ s.heap.Untagged q) (count size : Nat) :
    (Heap.allocateZeroed count size).Ensures s.heap True fun place heap => ∃ blocks', Watched h p q
      { heap, grants := (place.map (Grant.zeroed · (count * size))).toList ++ s.grants } blocks' := by
  refine Client.ensures_zeroedBy ⟨blocks, held, fun _ => marked⟩
    (Client.ensures_allocate (watched_allocate held behind marked (count * size))) (fun _ => id) ?_
  rintro address heap ⟨blocks', held', marked'⟩
  refine ⟨blocks', held_zeroed (s := { s with heap }) held', fun misses => ?_⟩
  exact (marked' misses).imp id Heap.untagged_zeros

/-- A quiet move keeps watch. -/
theorem watched_perform (watched : Watched h p q s blocks) (behind : Behind h p q) {move : Move}
    (quiet : Quiet s move) (undisturbed : s.heap.Undisturbed q) :
    (perform move).Ensures s True fun _ s' => ∃ blocks', Watched h p q s' blocks' := by
  obtain ⟨legal, call⟩ := quiet
  have held := watched.held
  have misses := held.laid.misses (behind.of_same held.same).place undisturbed
  have marked := watched.marked misses
  cases move with
  | basic move =>
    cases move with
    | allocate request =>
      exact Client.ensures_keep (Client.ensures_allocate (watched_allocate held behind marked request))
    | tryAllocate request => exact Client.ensures_keep (watched_allocate held behind marked request)
    | release address =>
      exact Client.ensures_giveBack (watched_release held behind misses marked legal.2)
    | write address distance data => cases call
  | allocateZeroed count size =>
    exact Client.ensures_keep (watched_allocateZeroed held behind marked count size)
  | onFailure hook =>
    exact Call.Ensures.of_run rfl ⟨blocks, held.recount (some hook) rfl, watched.marked⟩
  | resetLowWater =>
    exact Call.Ensures.of_run rfl ⟨blocks, held.recount s.heap.hook rfl, watched.marked⟩

/-- **A double free is caught**, unless since the first one a header began inside that of the freed
block. The client wrote nothing itself in the meantime; other memory may have been handed out and given
back, also where the block was. The heap stays as it is. -/
theorem double_free_caught (created : Heap.create region settings overflow = .ok h)
    (before : Reached h s₁) (given : p ∈ s₁.grants.map Grant.address)
    (after : Call.Reachable perform
      (fun t move => Quiet t move ∧ t.heap.Undisturbed (h.headerOf p)) s₁ s)
    (undisturbed : s.heap.Undisturbed (h.headerOf p)) (gone : p ∉ s.grants.map Grant.address) :
    (Heap.release p).run s.heap = ⟨.error (.notAllocated (h.headerOf p)), s.heap, []⟩ := by
  obtain ⟨first, held₁⟩ := held_reached created before
  obtain ⟨q, behind⟩ := held₁.exists_behind given
  rw [behind.headerOf_eq] at after undisturbed ⊢
  obtain ⟨blocks, watched⟩ : ∃ blocks, Watched h p q s blocks :=
    Call.Reachable.invariant (I := fun t => ∃ blocks, Watched h p q t blocks) after
      ⟨first, held₁, fun _ => Or.inl given⟩ fun t move ⟨_, watched⟩ ⟨quiet, clear⟩ =>
        watched_perform watched behind quiet clear
  obtain ⟨held, marked⟩ := watched
  have behind' := behind.of_same held.same
  have untagged := (marked (held.laid.misses behind'.place undisturbed)).resolve_left gone
  rw [behind'.address]
  exact Heap.run_release_of_untagged held.laid behind'.place behind'.proper untagged

/-- Two hundred and fifty-six bytes at an even address. -/
def evenRegion : Region where
  base := 4096
  bytes := ⟨Array.replicate 256 0⟩
  basePos := by decide
  sizeLt := by decide +kernel
  endLe := by decide +kernel

/-- Two blocks are released and merged, and the second one's header lies in the memory handed out
then. -/
def coveringRun (first second : Nat) : List Move :=
  [.basic (.release first), .basic (.release second), .basic (.allocate 40)]

/-- The blocks on the way in a region of two hundred and fifty-six bytes. -/
def coveringLayouts : List (List Block) :=
  [[⟨⟨0, 24⟩, true⟩, ⟨⟨24, 24⟩, true⟩, ⟨⟨48, 192⟩, false⟩],
    [⟨⟨0, 24⟩, false⟩, ⟨⟨24, 24⟩, true⟩, ⟨⟨48, 192⟩, false⟩], [⟨⟨0, 240⟩, false⟩],
    [⟨⟨0, 56⟩, true⟩, ⟨⟨56, 184⟩, false⟩]]

/-- The heap is laid out as one of these lists of blocks, and no header begins inside the one at `q`. -/
def ClearIn (layouts : List (List Block)) (h : Heap) (q : Nat) : Prop :=
  ∃ blocks ∈ layouts, h.Shows h.start blocks ∧ ∀ b ∈ blocks, Heap.Misses q b.offset

instance (layouts : List (List Block)) (h : Heap) (q : Nat) : Decidable (ClearIn layouts h q) :=
  inferInstanceAs (Decidable (∃ _ ∈ layouts, _ ∧ _))

set_option maxRecDepth 4000 in
/-- Where blocks lie sixteen bytes apart no header ever begins inside another; where they lie eight bytes
apart none happens to. -/
theorem double_free_caught_coveringRun :
    (∃ (h : Heap) (s : Client Heap), Heap.create oddRegion clearing .trap = .ok h ∧
      s.grants.map (fun g => (g.address, g.length)) = [(4128, 40)] ∧
      (Heap.release 4160).run s.heap = ⟨.error (.notAllocated 47), s.heap, []⟩) ∧
    ∃ (h : Heap) (s : Client Heap), Heap.create evenRegion {} .trap = .ok h ∧
      s.grants.map (fun g => (g.address, g.length)) = [(4112, 40)] ∧
      (Heap.release 4136).run s.heap = ⟨.error (.notAllocated 24), s.heap, []⟩ := by
  constructor
  · obtain ⟨h, s₁, s, created, before, after, given, wide, granted, header⟩ : ∃ h s₁ s,
        Heap.create oddRegion clearing .trap = .ok h ∧ Reached h s₁ ∧
        Call.Reachable perform (fun t move => Quiet t move ∧ 16 ≤ t.heap.settings.alignment) s₁ s ∧
        4160 ∈ s₁.grants.map Grant.address ∧ 16 ≤ s.heap.settings.alignment ∧
        s.grants.map (fun g => (g.address, g.length)) = [(4128, 40)] ∧ h.headerOf 4160 = 47 :=
      ⟨_, _, Call.after perform _ (coveringRun 4128 4160), rfl,
        Call.Reachable.start.of_goes (by decide +kernel :
          Call.Goes perform Legal _ [.basic (.allocate 5), .basic (.allocate 5)]),
        Call.Reachable.start.of_goes (by decide +kernel), by decide +kernel⟩
    have gone : 4160 ∉ s.grants.map Grant.address := by
      rw [Grant.map_address_of_map granted]
      decide
    refine ⟨h, s, created, granted, ?_⟩
    rw [← header]
    refine double_free_caught created before given (after.mono ?_) (Or.inl wide) gone
    exact fun t move ⟨quiet, wide⟩ => ⟨quiet, Or.inl wide⟩
  · obtain ⟨h, s₁, s, created, before, after, given, clear, granted, header⟩ : ∃ h s₁ s,
        Heap.create evenRegion {} .trap = .ok h ∧ Reached h s₁ ∧
        Call.Reachable perform (fun t move => Quiet t move ∧ ClearIn coveringLayouts t.heap 24) s₁ s ∧
        4136 ∈ s₁.grants.map Grant.address ∧ ClearIn coveringLayouts s.heap 24 ∧
        s.grants.map (fun g => (g.address, g.length)) = [(4112, 40)] ∧ h.headerOf 4136 = 24 :=
      ⟨_, _, Call.after perform _ (coveringRun 4112 4136), rfl,
        Call.Reachable.start.of_goes (by decide +kernel :
          Call.Goes perform Legal _ [.basic (.allocate 8), .basic (.allocate 8)]),
        Call.Reachable.start.of_goes (by decide +kernel), by decide +kernel⟩
    have gone : 4136 ∉ s.grants.map Grant.address := by
      rw [Grant.map_address_of_map granted]
      decide
    have undisturbed {heap : Heap} : ClearIn coveringLayouts heap 24 → heap.Undisturbed 24 :=
      fun ⟨blocks, _, shows, misses⟩ => Or.inr ⟨blocks, shows, misses⟩
    refine ⟨h, s, created, granted, ?_⟩
    rw [← header] at after clear undisturbed ⊢
    refine double_free_caught created before given (after.mono ?_) (undisturbed clear) gone
    exact fun t move ⟨quiet, clear⟩ => ⟨quiet, undisturbed clear⟩

/-- Two blocks are released and merged, and then one is handed out whose header begins with the size
word of the second one's. -/
def overlappingRun : List Move :=
  [.basic (.release 4112), .basic (.release 4136), .basic (.allocate 16), .basic (.allocate 8)]

set_option maxRecDepth 4000 in
/-- A header that begins inside a stale one can tag it again: where blocks lie eight bytes apart a
double free goes through, and the audit refuses the heap that it leaves behind. -/
theorem double_free_accepted : ∃ h s₁ s, Heap.create evenRegion {} .trap = .ok h ∧ Reached h s₁ ∧
    4136 ∈ s₁.grants.map Grant.address ∧ Call.Reachable perform Quiet s₁ s ∧
    4136 ∉ s.grants.map Grant.address ∧ ((Heap.release 4136).run s.heap).result = .ok () ∧
    ((Heap.release 4136).run s.heap).state.isSound = .ok false :=
  ⟨_, _, Call.after perform _ overlappingRun, rfl,
    Call.Reachable.start.of_goes (by decide +kernel :
      Call.Goes perform Legal _ [.basic (.allocate 8), .basic (.allocate 8)]), by decide +kernel,
    Call.Reachable.start.of_goes (by decide +kernel), by decide +kernel⟩

end RegionAlloc.Tagged
