import RegionAlloc.Proofs.Tagged.Release

/-!
# What a release leaves in the region

The layout of a heap says what is in the headers of its blocks. Bytes elsewhere may be what is left of
a header that is none any more. A release leaves such a header as it was, or with the size that the
block had, tagged as free; and if the heap clears what it takes back, it leaves only zeros in the
payload (`release_wipes`).
-/

namespace RegionAlloc.Tagged.Heap

open Block Region

variable {h h' : Heap} {b : Block} {pre post : List Block}

/-- Besides the size of the released block and its payload, only headers of the blocks that are there
afterwards are written. The payload is zero if the heap clears what it takes back. -/
structure Wiped (h h' : Heap) (pre : List Block) (b : Block) (post : List Block) : Prop where
  region : AgreesOff (headers (coalesce 0 (pre ++ b.freed :: post)) ∪ h.payloadBytes b)
    (h.putSize (b.offset + 8) b.size .free).region h'.region
  zero : h.settings.clearOnFree = true → ∀ i ∈ h.payloadBytes b, h'.region.byte i = 0

private theorem clearIfAsked_zeros (laid : h.Laid (pre ++ b :: post)) :
    (clearIfAsked b.offset b.size).Ensures (h.putSize (b.offset + 8) b.size .free) True fun _ h₁ =>
      h.settings.clearOnFree = true → ∀ i ∈ h.payloadBytes b, h₁.region.byte i = 0 := by
  have inside := laid.inside
  obtain ⟨high, wide, _⟩ := laid.room (List.mem_append_right pre List.mem_cons_self)
  have large : (h.putSize (b.offset + 8) b.size .free).region.size = h.region.size :=
    size_putSize _ _ _
  unfold clearIfAsked
  apply Call.Ensures.state_bind
  by_cases asked : h.settings.clearOnFree = true
  · have same : (h.putSize (b.offset + 8) b.size .free).settings.clearOnFree = true := asked
    rw [if_pos same]
    have planned : (h.putSize (b.offset + 8) b.size .free).payload b.offset b.size
        = .ok (b.offset + h.headerSize, b.size - h.headerSize) :=
      payload_eq (by omega) (Nat.le_of_lt wide)
    refine Call.Ensures.change planned ?_
    intro _ i within
    obtain ⟨low, below⟩ := within
    rw [byte_writeBytes, if_pos ⟨low, by omega⟩, List.getD_eq_getElem?_getD,
      List.getElem?_replicate, if_pos (by omega)]
    rfl
  · have same : ¬ (h.putSize (b.offset + 8) b.size .free).settings.clearOnFree = true := asked
    rw [if_neg same]
    exact Call.Ensures.pure fun also => absurd also asked

/-- Coming into the free list writes headers alone, so the payload stays as it was cleared. -/
theorem wiped_of_inserted {h₁ : Heap} {usage : Usage} (laid : h.Laid (pre ++ b :: post))
    (cleared : Cleared h h₁ b)
    (zero : h.settings.clearOnFree = true → ∀ i ∈ h.payloadBytes b, h₁.region.byte i = 0)
    (inserted : Inserted { h₁ with usage } h' (roster false pre) b.toEntry (roster false post)) :
    Wiped h h' pre b post := by
  have tiles := tiles_freed laid.tiles
  have member : b ∈ pre ++ b :: post := List.mem_append_right pre List.mem_cons_self
  obtain ⟨_, _, header⟩ := laid.room member
  have written := inserted.alters.region
  rw [← roster_false_freed, ← roster_coalesce tiles] at written
  have frame := written.mono (headersOf_roster false _)
  constructor
  · exact (cleared.alters.region.mono Set.subset_union_right).trans
      (frame.mono Set.subset_union_left)
  · intro asked i within
    have outside : i ∉ headers (coalesce 0 (pre ++ b.freed :: post)) := by
      intro merged
      have old := headers_coalesce 0 _ merged
      rw [headers_freed] at old
      obtain ⟨low, below⟩ := within
      exact laid.tiles.not_mem_headers member (by omega) (by omega) old
    rw [frame.sameByte i outside]
    exact zero asked i within

/-- **A release wipes what it takes back.** -/
theorem release_wipes (laid : h.Laid (pre ++ b :: post)) (live : b.live = true) :
    (release (h.region.base + (b.offset + h.headerSize))).Ensures h (¬ h.usage.CanFree h.overflow)
      fun _ h' => Released h h' pre b post ∧ Wiped h h' pre b post := by
  apply release_ensures_of_inserts laid live (clearIfAsked_zeros laid) id
  intro h₁ usage cleared zero counted
  have ready := (ready_of_cleared laid live cleared).recount usage
  refine (insertFree_ensures ready).mono False.elim ?_
  intro _ h' inserted
  exact ⟨released_of_inserted laid live cleared counted inserted,
    wiped_of_inserted laid cleared zero inserted⟩

end RegionAlloc.Tagged.Heap
