import RegionAlloc.Proofs.Carve
import RegionAlloc.Proofs.Tagged.Laid

/-!
# What an allocation makes of the layout of a tagged heap

An allocation takes the first free block that is large enough for the padded request, cuts it if more
than two headers are left over, and stamps it as handed out (`tryAllocate_fits`). If no free block is
large enough, nothing changes (`tryAllocate_fails`).
-/

namespace RegionAlloc.Tagged.Heap

open Block Region

variable {h h' : Heap} {padded request : Nat} {b : Block} {pre post blocks : List Block}

/-- A heap whose free list no longer leads to a block that is about to be cut. -/
structure Unlinked (h h' : Heap) (pre : List Block) (b : Block) (post : List Block) : Prop where
  front : h'.Leads (roster false pre) (leadsTo none (roster false post ++ [h.marker]))
  back : Chained (code h'.settings) h'.region none (roster false post ++ [h.marker])
  size : h'.region.readWord (b.offset + 8) = b.size
  alters : Alters (headersOf (roster false pre)) h h'

private theorem unlink_ensures (laid : h.Laid (pre ++ b :: post)) (free : b.live = false) :
    (setNext (anchorFrom .head (roster false pre))
      (leadsTo none (roster false post ++ [h.marker]))).Ensures h False fun _ h' =>
        Unlinked h h' pre b post := by
  have spread := laid.spread false
  have leads := laid.leads
  rw [roster_of_live free] at spread leads
  rw [List.append_assoc] at leads
  obtain ⟨front, back⟩ := leads_append.1 leads
  have front_spread := spread.sublist (List.sublist_append_left _ _)
  have apart : HeadersApart (roster false pre) (b.toEntry :: roster false post ++ [h.marker]) :=
    headersApart_append.2 ⟨headersApart_of_spread spread, headersApart_marker_of_spread front_spread⟩
  refine (setNext_ensures front front_spread (laid.placed_behind.small laid.inside)).mono id ?_
  rintro _ h' ⟨redirected, alters⟩
  obtain ⟨_, _, size, rest⟩ := alters.chained back apart
  exact ⟨redirected, rest, size, alters⟩

/-- A heap whose free list leads past the block that was cut off. -/
structure Cut (h h' : Heap) (padded : Nat) (pre : List Block) (b : Block) (post : List Block) :
    Prop where
  leads : h'.Leads (roster false pre ++ (roster false (leftover 0 h.splitLimit padded b) ++
    (roster false post ++ [h.marker]))) none
  size : h'.region.readWord (b.offset + 8) = takenSize h.splitLimit padded b.size
  alters : Alters (headersOf (roster false pre ++ b.toEntry ::
    roster false (leftover 0 h.splitLimit padded b))) h h'

/-- A heap whose free list leads past a block to what lies behind its front. -/
structure Parted (h h' : Heap) (padded : Nat) (pre : List Block) (b : Block) (post : List Block) :
    Prop where
  leads : h'.Leads (roster false pre ++
    (rest 0 padded b).toEntry :: (roster false post ++ [h.marker])) none
  alters : Alters (headersOf ((rest 0 padded b).toEntry :: roster false pre)) h h'

/-- Once the header of what lies behind the front is written, the entries in front of the block are
led there. -/
theorem setNext_parted {h₁ : Heap} (laid : h.Laid (pre ++ b :: post)) (free : b.live = false)
    (wide : padded + h.splitLimit < b.size)
    (unlinked : Unlinked h h₁ pre b post) :
    (setNext (anchorFrom .head (roster false pre)) (some (rest 0 padded b).offset)).Ensures
      ((h₁.putSize ((rest 0 padded b).offset + 8) (b.size - padded) .free).putNext
        (.block (rest 0 padded b).offset) (leadsTo none (roster false post ++ [h.marker]))) False
      fun _ h' => Parted h h' padded pre b post := by
  obtain ⟨front, back, _, alters₁⟩ := unlinked
  have limit : h.region.size < 0x8000000000000000 := h.region.sizeLt
  have inside := laid.inside
  have size₁ := alters₁.region.sameSize
  have spread := laid.spread false
  obtain ⟨high, _, header⟩ := laid.room (List.mem_append_right pre List.mem_cons_self)
  have placed : h₁.Placed (leadsTo none (roster false post ++ [h.marker])) :=
    fun o same => alters₁.isPlace (laid.placed_behind o same)
  rw [roster_of_live free] at spread
  have front_spread := spread.sublist (List.sublist_append_left _ _)
  have offset : (rest 0 padded b).offset = b.offset + padded := by
    simp only [rest]
    omega
  have length : (rest 0 padded b).size = b.size - padded := rfl
  have limit_eq : h.splitLimit = 2 * h.headerSize := rfl
  have rest_apart := laid.tiles.headersApart_inside (e := (rest 0 padded b).toEntry) (by omega)
    (by omega) false
  have front_subset : roster false pre ⊆ roster false pre ++ roster false post :=
    List.subset_append_left _ _
  have rest_back : HeadersApart [(rest 0 padded b).toEntry] (roster false post ++ [h.marker]) := by
    refine headersApart_append.2 ⟨rest_apart.mono (List.Subset.refl _)
      (List.subset_append_right _ _), headersApart_marker fun x same => ?_⟩
    obtain rfl := List.mem_singleton.1 same
    omega
  have front_apart : HeadersApart (roster false pre)
      ((rest 0 padded b).toEntry :: (roster false post ++ [h.marker])) :=
    headersApart_cons.2 ⟨rest_apart.symm.mono front_subset (List.Subset.refl _),
      headersApart_append.2 ⟨(headersApart_cons.1 (headersApart_of_spread spread)).2,
        headersApart_marker_of_spread front_spread⟩⟩
  have alters₂ := alters_putHeader (h := h₁) (rest 0 padded b).toEntry (b.size - padded) .free
    (leadsTo none (roster false post ++ [h.marker]))
  have back₂ := chained_putHeader (e := (rest 0 padded b).toEntry) (alters₁.inside inside) back placed
    (by omega) (by omega) rest_back
  have front₂ := alters₂.leads rfl front (rest_apart.mono (List.Subset.refl _) front_subset)
  refine (setNext_ensures front₂ front_spread ?_).mono id ?_
  · intro o same
    obtain rfl := Option.some.inj same
    omega
  rintro _ h₃ ⟨front₃, alters₃⟩
  refine ⟨leads_append.2 ⟨front₃, alters₃.chained back₂ front_apart⟩, ?_⟩
  refine (alters₁.mono (headersOf_mono ?_)).trans
    ((alters₂.mono (headersOf_mono ?_)).trans (alters₃.mono (headersOf_mono ?_)))
  · exact List.subset_cons_self _ _
  · exact List.cons_subset.2 ⟨List.mem_cons_self, List.nil_subset _⟩
  · exact List.subset_cons_self _ _

/-- Last, the size of the block itself is cut down. -/
theorem cut_of_parted {h₃ : Heap} (laid : h.Laid (pre ++ b :: post)) (fits : h.headerSize ≤ padded)
    (wide : padded + h.splitLimit < b.size) (parted : Parted h h₃ padded pre b post) :
    Cut h (h₃.putSize (b.offset + 8) padded .free) padded pre b post := by
  obtain ⟨leads, alters₁⟩ := parted
  have limit : h.region.size < 0x8000000000000000 := h.region.sizeLt
  have inside := laid.inside
  have size₁ := alters₁.region.sameSize
  obtain ⟨high, _, header⟩ := laid.room (List.mem_append_right pre List.mem_cons_self)
  have own_apart := laid.tiles.headersApart_inside (e := b.toEntry) (Nat.le_refl _) (by omega) false
  have own_rest : HeadersApart [b.toEntry]
      ((rest 0 padded b).toEntry :: (roster false post ++ [h.marker])) := by
    refine headersApart_cons.2 ⟨?_, headersApart_append.2 ⟨own_apart.mono (List.Subset.refl _)
      (List.subset_append_right _ _), headersApart_marker fun x same => ?_⟩⟩
    · intro x left y right
      obtain rfl := List.mem_singleton.1 left
      obtain rfl := List.mem_singleton.1 right
      refine Or.inl ?_
      change b.offset + 16 ≤ b.offset + (0 + padded)
      omega
    · obtain rfl := List.mem_singleton.1 same
      omega
  have alters₂ : Alters (headersOf [b.toEntry]) h₃ (h₃.putSize (b.offset + 8) padded .free) :=
    alters_putSize padded .free List.mem_cons_self rfl
  have left : roster false (leftover 0 h.splitLimit padded b) = [(rest 0 padded b).toEntry] := by
    rw [leftover, if_pos wide]
    rfl
  refine ⟨?_, ?_, ?_⟩
  · rw [left]
    refine alters₂.leads rfl leads (headersApart_append.2 ⟨?_, own_rest⟩)
    exact own_apart.mono (List.Subset.refl _) (List.subset_append_left _ _)
  · rw [takenSize, if_pos wide]
    exact h₃.region.readWord_writeWord (by simp only [Tag.bit]; omega) (by omega)
  · rw [left]
    refine (alters₁.mono (headersOf_mono ?_)).trans (alters₂.mono (headersOf_mono ?_))
    · refine List.cons_subset.2 ⟨?_, List.subset_append_left _ _⟩
      exact List.mem_append_right _ (List.mem_cons_of_mem _ List.mem_cons_self)
    · exact List.cons_subset.2
        ⟨List.mem_append_right _ List.mem_cons_self, List.nil_subset _⟩

/-- What lies behind the front of a block becomes a free block of its own. -/
theorem split_cut {h₁ : Heap} (laid : h.Laid (pre ++ b :: post)) (free : b.live = false)
    (fits : h.headerSize ≤ padded) (wide : padded + h.splitLimit < b.size)
    (unlinked : Unlinked h h₁ pre b post) :
    (split (anchorFrom .head (roster false pre)) b.offset padded (b.size - padded)
      (leadsTo none (roster false post ++ [h.marker]))).Ensures h₁ False fun _ h' =>
        Cut h h' padded pre b post := by
  have limit : h.region.size < 0x8000000000000000 := h.region.sizeLt
  have inside := laid.inside
  have size₁ := unlinked.alters.region.sameSize
  obtain ⟨high, _, header⟩ := laid.room (List.mem_append_right pre List.mem_cons_self)
  have offset : (rest 0 padded b).offset = b.offset + padded := by
    simp only [rest]
    omega
  have place : h₁.overflow.add b.offset padded = .ok (rest 0 padded b).offset := by
    rw [offset]
    exact Overflow.add_eq_ok (by omega)
  refine Call.Ensures.ask_bind place ?_
  refine Call.Ensures.run_bind (run_setSize (by omega) (by omega)) ?_
  refine Call.Ensures.run_bind (run_setNext_block (by rw [size_putSize]; omega)) ?_
  refine Call.Ensures.bind (setNext_parted laid free wide unlinked) ?_
  intro _ h₃ parted
  have size₃ := parted.alters.region.sameSize
  exact Call.Ensures.of_run (run_setSize (by omega) (by omega)) (cut_of_parted laid fits wide parted)

/-- A block that left the free list is cut down to what was asked for if enough is left over. -/
theorem trim_cut {h₁ : Heap} (laid : h.Laid (pre ++ b :: post)) (free : b.live = false)
    (fits : h.headerSize ≤ padded) (enough : padded ≤ b.size) (unlinked : Unlinked h h₁ pre b post) :
    (trim (anchorFrom .head (roster false pre)) b.offset padded
      (leadsTo none (roster false post ++ [h.marker]))).Ensures h₁ False fun _ h' =>
        Cut h h' padded pre b post := by
  have limit : h.region.size < 0x8000000000000000 := h.region.sizeLt
  have inside := laid.inside
  obtain ⟨high, _, header⟩ := laid.room (List.mem_append_right pre List.mem_cons_self)
  have size₁ := unlinked.alters.region.sameSize
  have found : h₁.blockSize b.offset = .ok b.size := by
    rw [blockSize_of_room (by omega), unlinked.size, Nat.mod_eq_of_lt (by omega)]
  have same : h₁.splitLimit = h.splitLimit := by
    rw [splitLimit, splitLimit, headerSize, headerSize, unlinked.alters.settings]
  refine Call.Ensures.ask_bind found (Call.Ensures.ask_bind (Overflow.sub_eq_ok enough) ?_)
  refine Call.Ensures.state_bind ?_
  by_cases wide : padded + h.splitLimit < b.size
  · rw [if_pos (by omega)]
    exact split_cut laid free fits wide unlinked
  · rw [if_neg (by omega)]
    refine Call.Ensures.pure ⟨?_, ?_, ?_⟩
    · rw [leftover, if_neg wide]
      exact leads_append.2 ⟨unlinked.front, unlinked.back⟩
    · rw [takenSize, if_neg wide]
      exact unlinked.size
    · exact unlinked.alters.mono (headersOf_mono (List.subset_append_left _ _))

/-- The headers that a cut writes lie apart from those of live blocks. -/
theorem cut_apart (laid : h.Laid (pre ++ b :: post)) (free : b.live = false) :
    HeadersApart (roster false pre ++ b.toEntry :: roster false (leftover 0 h.splitLimit padded b))
      (roster true pre ++ roster true post) := by
  have header : 16 ≤ h.headerSize := h.settings.sixteen_le_headerSize
  have limit_eq : h.splitLimit = 2 * h.headerSize := rfl
  have lists := headersApart_of_tiles laid.tiles false
  rw [Bool.not_false, roster_of_live free, roster_true_of_free free] at lists
  intro x left y right
  rcases List.mem_append.1 left with before | inside
  · exact lists x (List.mem_append_left _ before) y right
  rcases List.mem_cons.1 inside with rfl | behind
  · exact lists _ (List.mem_append_right _ List.mem_cons_self) y right
  by_cases wide : padded + h.splitLimit < b.size
  · have offset : (rest 0 padded b).offset = b.offset + padded := by
      simp only [rest]
      omega
    rw [leftover, if_pos wide] at behind
    obtain rfl := List.mem_singleton.1 (behind : x ∈ [(rest 0 padded b).toEntry])
    exact laid.tiles.headersApart_inside (by omega) (by omega) true _ List.mem_cons_self y right
  · rw [leftover, if_neg wide] at behind
    cases behind

/-- The headers that a cut writes are headers of the blocks that it makes. -/
theorem headersOf_cut (pre post : List Block) (slack : Nat) (b : Block) :
    headersOf (roster false pre ++ b.toEntry :: roster false (leftover 0 slack padded b))
      ⊆ headers (pre ++ (carve 0 slack padded b ++ post)) := by
  rintro i ⟨e, member, low, below⟩
  rcases List.mem_append.1 member with before | behind
  · refine headersOf_mono ?_ ⟨e, before, low, below⟩
    exact List.Subset.trans (roster_subset false pre)
      (List.map_subset _ (List.subset_append_left _ _))
  rcases List.mem_cons.1 behind with rfl | after
  · have first : taken slack padded b ∈ pre ++ (carve 0 slack padded b ++ post) :=
      List.mem_append_right _ List.mem_cons_self
    exact headersOf_subset first ⟨_, List.mem_cons_self, low, below⟩
  · refine headersOf_mono ?_ ⟨e, after, low, below⟩
    refine List.Subset.trans (roster_subset false _) (List.map_subset _ fun c inside => ?_)
    exact List.mem_append_right _ (List.mem_cons_of_mem _ (List.mem_append_left _ inside))

section Stamping

variable {h₁ : Heap} {usage : Usage}

/-- The free list leads past a block that was stamped as handed out. -/
theorem leads_of_cut (laid : h.Laid (pre ++ b :: post))
    (tiles : Tiles 0 h.start (pre ++ (carve 0 h.splitLimit padded b ++ post)) h.endMarker)
    (cut : Cut h h₁ padded pre b post)
    (alters : Alters (headersOf [(taken h.splitLimit padded b).toEntry]) { h₁ with usage } h')
    (head : h'.headLink = h₁.headLink) :
    h'.Leads (roster false (pre ++ (carve 0 h.splitLimit padded b ++ post)) ++ [h.marker]) none := by
  obtain ⟨high, wide, header⟩ := laid.room (List.mem_append_right pre List.mem_cons_self)
  have first : taken h.splitLimit padded b ∈ pre ++ (carve 0 h.splitLimit padded b ++ post) :=
    List.mem_append_right _ List.mem_cons_self
  have leads : ({ h₁ with usage } : Heap).Leads (roster false pre ++
      (roster false (leftover 0 h.splitLimit padded b) ++ roster false post) ++ [h.marker]) none := by
    rw [List.append_assoc, List.append_assoc]
    exact ⟨cut.leads.head, cut.leads.chained⟩
  have own : HeadersApart [(taken h.splitLimit padded b).toEntry] (roster false pre ++
      (roster false (leftover 0 h.splitLimit padded b) ++ roster false post)) := by
    rw [← roster_append (leftover 0 h.splitLimit padded b) post]
    exact tiles.headersApart_inside (Nat.le_refl _) (by have := tiles.room first; omega) false
  rw [roster_false_carved]
  refine alters.leads head leads (headersApart_append.2 ⟨own, headersApart_marker fun e same => ?_⟩)
  obtain rfl := List.mem_singleton.1 same
  change b.offset + 16 ≤ h.endMarker
  omega

/-- All live blocks are stamped after one more was. -/
theorem stamped_of_cut (laid : h.Laid (pre ++ b :: post)) (free : b.live = false)
    (cut : Cut h h₁ padded pre b post)
    (alters : Alters (headersOf [(taken h.splitLimit padded b).toEntry]) { h₁ with usage } h')
    (stamped : Stamped h'.settings h'.region (taken h.splitLimit padded b).toEntry) :
    ∀ e ∈ roster true (pre ++ (carve 0 h.splitLimit padded b ++ post)),
      Stamped h'.settings h'.region e := by
  obtain ⟨_, wide, header⟩ := laid.room (List.mem_append_right pre List.mem_cons_self)
  have own := laid.tiles.headersApart_inside (e := (taken h.splitLimit padded b).toEntry)
    (Nat.le_refl _) (by change b.offset + 16 ≤ _; omega) true
  have kept : ∀ e ∈ roster true pre ++ roster true post, Stamped h'.settings h'.region e := by
    intro e other
    have single : [e] ⊆ roster true pre ++ roster true post :=
      List.cons_subset.2 ⟨other, List.nil_subset _⟩
    have listed : e ∈ roster true (pre ++ b :: post) := by
      rwa [roster_true_of_free free]
    have before := cut.alters.stamped (laid.stamped e listed)
      ((cut_apart laid free).mono (List.Subset.refl _) single)
    exact alters.stamped before (own.mono (List.Subset.refl _) single)
  rw [roster_true_carved]
  intro e member
  rcases List.mem_append.1 member with before | behind
  · exact kept e (List.mem_append_left _ before)
  · rcases List.mem_cons.1 behind with rfl | after
    · exact stamped
    · exact kept e (List.mem_append_right _ after)

end Stamping

/-- What a heap is like after a free block was handed out, cut if need be. -/
structure Allocated (h h' : Heap) (padded : Nat) (pre : List Block) (b : Block)
    (post : List Block) : Prop where
  laid : h'.Laid (pre ++ (carve 0 h.splitLimit padded b ++ post))
  region : AgreesOff (headers (pre ++ (carve 0 h.splitLimit padded b ++ post))) h.region h'.region
  alike : Alike h h'
  counted : h.usage.allocate (takenSize h.splitLimit padded b.size) h.overflow = .ok h'.usage

/-- Once the block that was cut off is stamped as handed out, the heap is laid out again. -/
theorem allocated_of_cut {h₁ : Heap} {usage : Usage} (laid : h.Laid (pre ++ b :: post))
    (free : b.live = false) (multiple : h.settings.alignment ∣ padded)
    (fits : h.headerSize + h.settings.alignment ≤ padded) (cut : Cut h h₁ padded pre b post)
    (counted : h.usage.allocate (takenSize h.splitLimit padded b.size) h.overflow = .ok usage)
    (alters : Alters (headersOf [(taken h.splitLimit padded b).toEntry]) { h₁ with usage } h')
    (head : h'.headLink = h₁.headLink)
    (stamped : Stamped h'.settings h'.region (taken h.splitLimit padded b).toEntry) :
    Allocated h h' padded pre b post := by
  have narrow : h.settings.alignment ≤ h.headerSize := laid.formed.valid.alignment_le
  have limit_eq : h.splitLimit = 2 * h.headerSize := rfl
  obtain ⟨high, wide, _⟩ := laid.room (List.mem_append_right pre List.mem_cons_self)
  have tiles : Tiles 0 h.start (pre ++ (carve 0 h.splitLimit padded b ++ post)) h.endMarker :=
    laid.tiles.replace (tiles_carve (by omega) (by omega) (by omega) (Nat.zero_le _))
  have first : taken h.splitLimit padded b ∈ pre ++ (carve 0 h.splitLimit padded b ++ post) :=
    List.mem_append_right _ List.mem_cons_self
  have alike : Alike h h' := cut.alters.toAlike.trans
    ⟨alters.settings, alters.start, alters.endMarker, alters.hook, alters.overflow⟩
  have base_eq := alters.region.sameBase.trans cut.alters.region.sameBase
  have sameSize := alters.region.sameSize.trans cut.alters.region.sameSize
  refine ⟨⟨laid.formed.of_alike alike base_eq sameSize, ?_, ?_, settled_carve laid.settled free, ?_, ?_,
    ?_⟩, ?_, alike, ?_⟩
  · rw [alike.start, alike.endMarker]
    exact tiles
  · rw [headerSize, alike.settings]
    refine forall_size_carve (P := fun size => h.settings.alignment ∣ size ∧
      h.headerSize + h.settings.alignment ≤ size) laid.sizes ⟨multiple, fits⟩ fun split => ?_
    have whole := (laid.sizes b (List.mem_append_right pre List.mem_cons_self)).1
    have multiples : h.settings.alignment ∣ b.size - padded := Nat.dvd_sub whole multiple
    exact ⟨multiples, by omega⟩
  · rw [marker, alike.endMarker]
    exact leads_of_cut laid tiles cut alters head
  · exact stamped_of_cut laid free cut alters stamped
  · have left : freeBytes (pre ++ (carve 0 h.splitLimit padded b ++ post)) +
        cost 0 h.splitLimit padded b.size = freeBytes (pre ++ b :: post) :=
      freeBytes_carved (Nat.zero_le h.splitLimit) free
    have same : cost 0 h.splitLimit padded b.size = takenSize h.splitLimit padded b.size := rfl
    have total := laid.counted
    obtain ⟨_, spent, _⟩ := Usage.of_allocate counted
    rw [alters.usage]
    simp only
    omega
  · exact AgreesOff.trans (cut.alters.region.mono (headersOf_cut pre post _ b))
      (alters.region.mono (headersOf_subset first))
  · rw [alters.usage]
    exact counted

/-- A found block is handed out, cut if need be. -/
theorem takeBlock_ensures (laid : h.Laid (pre ++ b :: post)) (free : b.live = false)
    (multiple : h.settings.alignment ∣ padded)
    (fits : h.headerSize + h.settings.alignment ≤ padded) (enough : padded ≤ b.size) :
    (takeBlock (anchorFrom .head (roster false pre)) b.offset padded).Ensures h
      (¬ h.usage.CanAllocate h.overflow) fun _ h' => Allocated h h' padded pre b post := by
  have limit : h.region.size < 0x8000000000000000 := h.region.sizeLt
  have inside := laid.inside
  have listed : b ∈ pre ++ b :: post := List.mem_append_right pre List.mem_cons_self
  obtain ⟨high, wide, header⟩ := laid.room listed
  have leads := laid.leads
  rw [roster_of_live free, List.append_assoc] at leads
  have next : h.next? (.block b.offset) = .ok (leadsTo none (roster false post ++ [h.marker])) :=
    next?_block inside (leads_append.1 leads).2 laid.placed_behind
  refine Call.Ensures.ask_bind next ?_
  refine Call.Ensures.bind ((unlink_ensures laid free).mono False.elim fun _ _ => id) ?_
  intro _ h₁ unlinked
  refine Call.Ensures.bind ((trim_cut laid free (by omega) enough unlinked).mono False.elim
    fun _ _ => id) ?_
  intro _ h₂ cut
  have small : takenSize h.splitLimit padded b.size ≤ b.size := by
    unfold takenSize
    split <;> omega
  have size₂ := cut.alters.region.sameSize
  have found : h₂.blockSize b.offset = .ok (takenSize h.splitLimit padded b.size) := by
    rw [blockSize_of_room (by omega), cut.size, Nat.mod_eq_of_lt (by omega)]
  refine Call.Ensures.ask_bind found (Call.Ensures.bind (count_ensures.mono ?_ fun _ _ => id) ?_)
  · rintro ⟨fault, stopped⟩
    rw [cut.alters.usage, cut.alters.overflow] at stopped
    exact Usage.not_canAllocate_of_allocate (small.trans (laid.size_le_free free)) stopped
  rintro _ _ ⟨usage, counted, rfl⟩
  rw [cut.alters.usage, cut.alters.overflow] at counted
  have room : b.offset + 16 ≤ h₂.region.size := by omega
  have short : (taken h.splitLimit padded b).size < 0x8000000000000000 := by
    change takenSize h.splitLimit padded b.size < 0x8000000000000000
    omega
  refine Call.Ensures.run_bind (run_setSize room short) ?_
  refine Call.Ensures.run_bind (run_setNext_block (by rw [size_putSize]; exact room)) ?_
  have alters := alters_putHeader (h := { h₂ with usage }) (taken h.splitLimit padded b).toEntry
    (takenSize h.splitLimit padded b.size) .allocated none
  have stamped := stamped_putHeader (h := { h₂ with usage })
    (e := (taken h.splitLimit padded b).toEntry) room short
  exact Call.Ensures.emit (allocated_of_cut laid free multiple fits cut counted alters rfl stamped)

private theorem Laid.next_head (laid : h.Laid blocks) :
    h.next .head = .ok (startOf h.endMarker (roster false blocks)) := by
  refine next_of_next? ?_
  rw [laid.next?_head, leadsTo_some]

/-- The search finds the first free block that is large enough. -/
theorem Laid.firstFit_eq (laid : h.Laid (pre ++ b :: post)) (free : b.live = false)
    (fits : padded ≤ b.size) (first : ∀ c ∈ pre, ¬ (c.live = false ∧ padded ≤ c.size)) :
    h.firstFit padded = .ok (anchorFrom .head (roster false pre), b.offset) := by
  have listed : b ∈ pre ++ b :: post := List.mem_append_right pre List.mem_cons_self
  have inside := laid.inside
  have chained := laid.chained
  have admits := laid.admits
  have start := laid.next_head
  have spread := laid.spread false
  rw [roster_of_live free] at chained admits start spread
  rw [startOf_append] at start
  obtain ⟨front, _⟩ := chained_append.1 chained
  obtain ⟨fuel, enough⟩ : ∃ fuel, h.walkBound = (roster false pre).length + (fuel + 1) :=
    (spread.sublist (List.sublist_append_left _ _)).exists_fuel (by omega)
  have small := size_lt_of_none_fits first
  rw [firstFit, start, enough]
  refine (firstFitFrom_append inside front (laid.isPlace listed)
    (fun e member => admits e (List.mem_append_left _ member)) (fuel + 1) small .head).trans ?_
  rw [firstFitFrom, laid.blockSize_eq listed]
  simp only [bind, Except.bind, if_neg (Nat.not_lt.2 fits)]
  rfl

/-- The search ends at the end marker if no free block is large enough. -/
theorem Laid.firstFit_eq_endMarker (laid : h.Laid blocks) (positive : 0 < padded)
    (nowhere : ∀ c ∈ blocks, ¬ (c.live = false ∧ padded ≤ c.size)) :
    h.firstFit padded = .ok (anchorFrom .head (roster false blocks), h.endMarker) := by
  have inside := laid.inside
  obtain ⟨fuel, enough⟩ : ∃ fuel, h.walkBound = (roster false blocks).length + (fuel + 1) :=
    (laid.spread false).exists_fuel (by omega)
  have small := size_lt_of_none_fits nowhere
  obtain ⟨size, _, next⟩ := laid.endMarker_eq
  rw [firstFit, laid.next_head, enough]
  refine (firstFitFrom_append inside laid.chained laid.isPlace_endMarker laid.admits (fuel + 1) small
    .head).trans ?_
  rw [firstFitFrom, size, next]
  simp only [bind, Except.bind, if_pos positive]
  rfl

/-- An allocation gives nothing at once, or goes on with the size padded for the request. -/
theorem tryAllocate_of_padded {stop : Prop} {P : Option Nat → Heap → Prop} (refused : P none h)
    (goes_on : ∀ padded, request ≠ 0 → h.settings.paddedSize? request = some padded →
      padded ≤ h.usage.free → (allocatePadded padded).Ensures h stop P) :
    (tryAllocate request).Ensures h stop P := by
  unfold tryAllocate
  apply Call.Ensures.state_bind
  by_cases nothing : request = 0
  · rw [if_pos nothing]
    exact Call.Ensures.pure refused
  rw [if_neg nothing]
  cases padding : h.settings.paddedSize? request with
  | none => exact Call.Ensures.emit_bind (Call.Ensures.pure refused)
  | some padded =>
    by_cases short : h.usage.free < padded
    · simp only [if_pos short]
      exact Call.Ensures.emit_bind (Call.Ensures.pure refused)
    · simp only [if_neg short]
      exact goes_on padded nothing padding (Nat.not_lt.1 short)

/-- **An allocation that fits succeeds.** It takes the first free block that is large enough for the
padded request. Only a counter without room can stop it. -/
theorem tryAllocate_fits (laid : h.Laid (pre ++ b :: post)) (free : b.live = false)
    (positive : 0 < request) (padding : h.settings.paddedSize? request = some padded)
    (fits : padded ≤ b.size) (first : ∀ c ∈ pre, ¬ (c.live = false ∧ padded ≤ c.size)) :
    (tryAllocate request).Ensures h (¬ h.usage.CanAllocate h.overflow) fun address h' =>
      address = some (h.region.base + (b.offset + h.headerSize)) ∧
        Allocated h h' padded pre b post := by
  have valid := laid.formed.valid
  have limit : h.region.size < 0x8000000000000000 := h.region.sizeLt
  have inside := laid.inside
  have enough := laid.size_le_free free
  obtain ⟨high, wide, header⟩ := laid.room (List.mem_append_right pre List.mem_cons_self)
  obtain ⟨multiple, covers, _⟩ := Settings.paddedSize?_eq_some valid padding
  have above : h.headerSize < padded := by
    unfold headerSize
    omega
  unfold tryAllocate
  refine Call.Ensures.state_bind ?_
  rw [if_neg (by omega), padding]
  simp only
  rw [if_neg (by omega)]
  unfold allocatePadded
  refine Call.Ensures.ask_bind (laid.firstFit_eq free fits first) (Call.Ensures.state_bind ?_)
  rw [if_neg (by omega)]
  refine Call.Ensures.bind (takeBlock_ensures laid free multiple
    (valid.headerSize_add_le multiple above) fits) ?_
  intro _ h' allocated
  have address : (do h'.region.addressOf (← h'.overflow.add b.offset h'.headerSize))
      = .ok (h.region.base + (b.offset + h.headerSize)) := by
    have size := allocated.region.sameSize
    rw [allocated.alike.headerSize_eq, Overflow.add_eq_ok (by omega), ← allocated.region.sameBase]
    exact h'.region.addressOf_eq_ok (by omega)
  refine Call.Ensures.ask_bind address ?_
  exact Call.Ensures.pure ⟨rfl, allocated⟩

/-- **An allocation that does not fit fails** and leaves the heap as it is. -/
theorem tryAllocate_fails (laid : h.Laid blocks)
    (nowhere : request = 0 ∨ ∀ padded, h.settings.paddedSize? request = some padded →
      ∀ c ∈ blocks, ¬ (c.live = false ∧ padded ≤ c.size)) :
    (tryAllocate request).Ensures h False fun address h' => address = none ∧ h' = h := by
  apply tryAllocate_of_padded ⟨rfl, rfl⟩
  intro padded asked padding _
  obtain ⟨_, covers, _⟩ := Settings.paddedSize?_eq_some laid.formed.valid padding
  have found := laid.firstFit_eq_endMarker (by omega) (nowhere.resolve_left asked padded padding)
  unfold allocatePadded
  refine Call.Ensures.ask_bind found (Call.Ensures.state_bind ?_)
  rw [if_pos rfl]
  exact Call.Ensures.emit_bind (Call.Ensures.pure ⟨rfl, rfl⟩)

/-- How a request can be answered: by the first free block that is large enough, or not at all. -/
inductive Allocation (h : Heap) (blocks : List Block) (request : Nat) : Option Nat → Heap → Prop
  | refused
      (nowhere : request = 0 ∨ ∀ padded, h.settings.paddedSize? request = some padded →
        ∀ c ∈ blocks, ¬ (c.live = false ∧ padded ≤ c.size)) :
      Allocation h blocks request none h
  | granted {pre post : List Block} {b : Block} {padded : Nat} {h' : Heap}
      (parts : blocks = pre ++ b :: post) (free : b.live = false)
      (padding : h.settings.paddedSize? request = some padded) (fits : padded ≤ b.size)
      (first : ∀ c ∈ pre, ¬ (c.live = false ∧ padded ≤ c.size))
      (allocated : Allocated h h' padded pre b post) :
      Allocation h blocks request (some (h.region.base + (b.offset + h.headerSize))) h'

/-- Either no free block is large enough for a request, or some block is the first that is. -/
theorem nowhere_or_first (settings : Settings) (blocks : List Block) (request : Nat) :
    (request = 0 ∨ ∀ padded, settings.paddedSize? request = some padded →
      ∀ c ∈ blocks, ¬ (c.live = false ∧ padded ≤ c.size)) ∨
    ∃ pre b post padded, blocks = pre ++ b :: post ∧ b.live = false ∧ 0 < request ∧
      settings.paddedSize? request = some padded ∧ padded ≤ b.size ∧
      ∀ c ∈ pre, ¬ (c.live = false ∧ padded ≤ c.size) := by
  by_cases nothing : request = 0
  · exact Or.inl (Or.inl nothing)
  cases padding : settings.paddedSize? request with
  | none =>
    left
    right
    intro padded absurd
    cases absurd
  | some padded =>
    rcases exists_first (fun c => c.live = false ∧ padded ≤ c.size) blocks with
      nowhere | ⟨pre, b, post, parts, ⟨free, fits⟩, first⟩
    · left
      right
      intro _ also
      obtain rfl := Option.some.inj also
      exact nowhere
    · right
      exact ⟨pre, b, post, padded, parts, free, Nat.pos_of_ne_zero nothing, rfl, fits, first⟩

/-- **An allocation takes a block that fits or changes nothing.** -/
theorem tryAllocate_ensures (laid : h.Laid blocks) (request : Nat) :
    (tryAllocate request).Ensures h (¬ h.usage.CanAllocate h.overflow)
      (Allocation h blocks request) := by
  rcases nowhere_or_first h.settings blocks request with
    nowhere | ⟨pre, b, post, padded, rfl, free, positive, padding, fits, first⟩
  · refine (tryAllocate_fails laid nowhere).mono False.elim ?_
    rintro _ _ ⟨rfl, rfl⟩
    exact .refused nowhere
  · refine (tryAllocate_fits laid free positive padding fits first).mono id ?_
    rintro _ h' ⟨rfl, allocated⟩
    exact .granted rfl free padding fits first allocated

end RegionAlloc.Tagged.Heap
