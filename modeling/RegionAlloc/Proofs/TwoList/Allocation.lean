import RegionAlloc.Proofs.Carve
import RegionAlloc.Proofs.Counting
import RegionAlloc.Proofs.TwoList.Laid

/-!
# What an allocation makes of the layout of a two-list heap

An allocation takes the first free block with room for the request and cuts it if more than a
header is left over (`tryAllocate_fits`). If no free block has room, nothing changes
(`tryAllocate_fails`).
-/

namespace RegionAlloc.TwoList.Heap

open Block Region

variable {h : Heap} {request : Nat} {b : Block} {pre post blocks : List Block}

/-- What a heap is like after a free block left the free chain, cut if need be, and before it comes
to the used chain. -/
structure Cut (h h' : Heap) (request : Nat) (pre : List Block) (b : Block) (post : List Block) :
    Prop where
  free : h'.Leads .free (roster false pre ++ (roster false (leftover 16 16 request b) ++
    roster false post)) none
  used : h'.Leads .used (roster true pre ++ roster true post) none
  size : h'.region.readWord (b.offset + 8) = takenSize 16 request b.size
  region : AgreesOff (headers (pre ++ (carve 16 16 request b ++ post))) h.region h'.region
  counted : h.usage.allocate (cost 16 16 request b.size) h.overflow = .ok h'.usage
  overflow : h'.overflow = h.overflow

/-- A free block that is handed out whole. -/
theorem unlink_cut (laid : h.Laid (pre ++ b :: post)) (free : b.live = false)
    (whole : ¬ request + 16 < b.size) :
    (do
      unlink .free (lastFrom none (roster false pre)) b.offset
      count (Usage.allocate b.size)).Ensures h (¬ h.usage.CanAllocate h.overflow) fun _ h' =>
        Cut h h' request pre b post := by
  have leads := laid.leads .free
  have used := laid.leads .used
  have spread := laid.spread false
  have apart := headersApart_of_tiles laid.tiles false
  have apart_own := laid.tiles.headersApart_inside (e := b.toEntry) (Nat.le_refl _) (by omega) false
  simp only [Chain.live] at leads used
  rw [roster_of_live free] at leads spread apart
  rw [roster_true_of_free free] at used
  rw [Bool.not_false, roster_true_of_free free] at apart
  refine Call.Ensures.bind ((unlink_ensures leads spread).mono False.elim fun _ _ => id) ?_
  rintro _ h' ⟨free', alters⟩
  have used' := used.of_alters alters (by decide)
    (apart.mono (List.subset_append_left _ _) (List.Subset.refl _))
  have own : Chained code h'.region _ [b.toEntry] :=
    (chained_append.1 (chained_append.1 leads.chained).2).1.off_headers alters.region
      (apart_own.symm.mono (List.subset_append_left _ _) (List.Subset.refl _))
  refine count_ensures.mono ?_ ?_
  · rintro ⟨fault, stopped⟩
    rw [alters.usage, alters.overflow] at stopped
    exact Usage.not_canAllocate_of_allocate (laid.size_le_free free) stopped
  · rintro _ _ ⟨usage, counted, rfl⟩
    rw [alters.usage, alters.overflow] at counted
    refine ⟨?_, used'.of_usage usage, ?_, ?_, ?_, alters.overflow⟩
    · rw [leftover, if_neg whole]
      exact free'.of_usage usage
    · rw [takenSize, if_neg whole]
      exact own.2.2.1
    · refine alters.region.mono ((headersOf_roster false pre).trans ?_)
      exact headersOf_mono (List.map_subset _ (List.subset_append_left _ _))
    · rw [cost, if_neg whole]
      exact counted

/-- A heap whose free chain leads past a block to what lies behind the request. -/
structure Parted (h h' : Heap) (request : Nat) (pre : List Block) (b : Block) (post : List Block) :
    Prop where
  free : h'.Leads .free
    (roster false pre ++ (rest 16 request b).toEntry :: roster false post) none
  used : h'.Leads .used (roster true pre ++ roster true post) none
  alters : Alters .free (headersOf ((rest 16 request b).toEntry :: roster false pre)) h h'

/-- Once the header of what lies behind the request is written, the entries in front of the block are
led there. -/
theorem setSuccessor_parted (laid : h.Laid (pre ++ b :: post)) (free : b.live = false)
    (wide : request + 16 < b.size) :
    (setSuccessor .free (lastFrom none (roster false pre)) (some (rest 16 request b).offset)).Ensures
      ((h.putWord ((rest 16 request b).offset + 8) (rest 16 request b).size).putWord
        (rest 16 request b).offset (code (leadsTo none (roster false post)))) False
      fun _ h' => Parted h h' request pre b post := by
  have limit : h.region.size < 0x8000000000000000 := h.region.sizeLt
  have room := laid.room (List.mem_append_right pre List.mem_cons_self)
  have offset : (rest 16 request b).offset = b.offset + (16 + request) := rfl
  have length : (rest 16 request b).size = b.size - request - 16 := rfl
  have leads := laid.leads .free
  have used := laid.leads .used
  have spread := laid.spread false
  have lists_apart := headersApart_of_tiles laid.tiles false
  have rest_apart := laid.tiles.headersApart_inside (e := (rest 16 request b).toEntry) (by omega)
    (by omega)
  simp only [Chain.live] at leads used
  rw [roster_of_live free] at leads spread lists_apart
  rw [roster_true_of_free free] at used
  rw [Bool.not_false, roster_true_of_free free] at lists_apart
  obtain ⟨front, back⟩ := leads_append.1 leads
  have front_subset : roster false pre ⊆ roster false pre ++ roster false post :=
    List.subset_append_left _ _
  have back_apart : HeadersApart [(rest 16 request b).toEntry] (roster false post) :=
    (rest_apart false).mono (List.Subset.refl _) (List.subset_append_right _ _)
  have alters₁ := alters_putHeader (h := h) (c := .free) (rest 16 request b).toEntry
    (code (leadsTo none (roster false post)))
  have back₁ := chained_putHeader back.2.2.2 (by omega) (by omega) back_apart
  have front₁ := front.off_headers (by simp) alters₁.region
    ((rest_apart false).mono (List.Subset.refl _) front_subset)
  have used₁ := used.of_alters alters₁ (by decide) (rest_apart true)
  refine (setSuccessor_ensures front₁ (spread.sublist (List.sublist_append_left _ _)) ?_).mono id ?_
  · intro o same
    obtain rfl := Option.some.inj same
    omega
  rintro _ h' ⟨front₂, alters₂⟩
  refine ⟨leads_append.2 ⟨front₂, ?_⟩, ?_, ?_⟩
  · refine back₁.off_headers alters₂.region (headersApart_cons.2 ⟨?_, ?_⟩)
    · exact (rest_apart false).symm.mono front_subset (List.Subset.refl _)
    · exact (headersApart_cons.1 (headersApart_of_spread spread)).2
  · exact used₁.of_alters alters₂ (by decide)
      (lists_apart.mono (List.subset_append_left _ _) (List.Subset.refl _))
  · refine (alters₁.mono (headersOf_mono ?_)).trans (alters₂.mono (headersOf_mono ?_))
    · exact List.cons_subset.2 ⟨List.mem_cons_self, List.nil_subset _⟩
    · exact List.subset_cons_self _ _

/-- Last, the size of the block itself is cut down. -/
theorem cut_of_parted {h' : Heap} {usage : Usage} (laid : h.Laid (pre ++ b :: post))
    (wide : request + 16 < b.size) (parted : Parted h h' request pre b post)
    (counted : h.usage.allocate (request + 16) h.overflow = .ok usage) :
    Cut h { h'.putWord (b.offset + 8) request with usage } request pre b post := by
  have limit : h.region.size < 0x8000000000000000 := h.region.sizeLt
  have room := laid.room (List.mem_append_right pre List.mem_cons_self)
  obtain ⟨chain, used, alters₁⟩ := parted
  have size₁ : h'.region.size = h.region.size := alters₁.region.sameSize
  have own_apart := laid.tiles.headersApart_inside (e := b.toEntry) (Nat.le_refl _) (by omega)
  have seam : HeadersApart [b.toEntry] [(rest 16 request b).toEntry] := by
    intro x left y right
    obtain rfl := List.mem_singleton.1 left
    obtain rfl := List.mem_singleton.1 right
    refine Or.inl ?_
    change b.offset + 16 ≤ b.offset + (16 + request)
    omega
  have chain_apart : HeadersApart [b.toEntry]
      (roster false pre ++ (rest 16 request b).toEntry :: roster false post) := by
    have own := own_apart false
    refine headersApart_append.2 ⟨own.mono (List.Subset.refl _) (List.subset_append_left _ _), ?_⟩
    exact headersApart_cons.2
      ⟨seam, own.mono (List.Subset.refl _) (List.subset_append_right _ _)⟩
  have alters₂ : Alters .free (headersOf [b.toEntry]) h' (h'.putWord (b.offset + 8) request) :=
    alters_putWord _ List.mem_cons_self (Or.inr rfl)
  have left : leftover 16 16 request b = [rest 16 request b] := if_pos wide
  have pieces : carve 16 16 request b = [taken 16 request b, rest 16 request b] :=
    congrArg (taken 16 request b :: ·) left
  refine ⟨?_, ?_, ?_, ?_, ?_, alters₁.overflow⟩
  · rw [left]
    exact (chain.off_headers (headOf_putWord _ _) alters₂.region chain_apart).of_usage usage
  · exact (used.off_headers (headOf_putWord _ _) alters₂.region (own_apart true)).of_usage usage
  · rw [takenSize, if_pos wide]
    exact h'.region.readWord_writeWord (by omega) (by omega)
  · have first : taken 16 request b ∈ pre ++ (carve 16 16 request b ++ post) := by simp [pieces]
    have second : rest 16 request b ∈ pre ++ (carve 16 16 request b ++ post) := by simp [pieces]
    refine (alters₁.region.mono (headersOf_mono ?_)).trans ?_
    · refine List.cons_subset.2 ⟨List.mem_map_of_mem second, ?_⟩
      exact List.Subset.trans (roster_subset false pre)
        (List.map_subset _ (List.subset_append_left _ _))
    · exact agreesOff_header _ (List.mem_map_of_mem first) (Or.inr rfl)
  · rw [cost, if_pos wide]
    exact counted

/-- A free block that is cut in two. -/
theorem split_cut (laid : h.Laid (pre ++ b :: post)) (free : b.live = false)
    (wide : request + 16 < b.size) :
    (split (lastFrom none (roster false pre)) b.offset request).Ensures h
      (¬ h.usage.CanAllocate h.overflow) fun _ h' => Cut h h' request pre b post := by
  have limit : h.region.size < 0x8000000000000000 := h.region.sizeLt
  have room := laid.room (List.mem_append_right pre List.mem_cons_self)
  have offset : (rest 16 request b).offset = b.offset + (16 + request) := rfl
  have space : (rest 16 request b).offset + 16 ≤ h.region.size := by omega
  have leads := laid.leads .free
  have rest_apart := laid.tiles.headersApart_inside (e := (rest 16 request b).toEntry) (by omega)
    (by omega) false
  simp only [Chain.live] at leads
  rw [roster_of_live free] at leads
  have back := (leads_append.1 leads).2
  have back_apart : HeadersApart [(rest 16 request b).toEntry] (b.toEntry :: roster false post) := by
    refine headersApart_cons.2 ⟨fun x left y right => ?_,
      rest_apart.mono (List.Subset.refl _) (List.subset_append_right _ _)⟩
    obtain rfl := List.mem_singleton.1 left
    obtain rfl := List.mem_singleton.1 right
    exact Or.inr (by omega)
  have data : h.dataOf b.offset = .ok (b.offset + 16) := dataOf_eq (by omega)
  have place : (do h.overflow.add (← h.dataOf b.offset) request)
      = .ok (rest 16 request b).offset := by
    rw [data]
    exact (Overflow.add_eq_ok (by omega)).trans (congrArg _ (by omega))
  have size : (do h.overflow.sub (← h.overflow.sub (← h.blockSize b.offset) request) headerSize)
      = .ok (rest 16 request b).size := by
    rw [blockSize_eq back]
    simp only [bind, Except.bind]
    rw [Overflow.sub_eq_ok (by omega)]
    exact Overflow.sub_eq_ok (by unfold headerSize; omega)
  -- The link of the block itself is still there after the first write.
  have next : (h.putWord ((rest 16 request b).offset + 8) (rest 16 request b).size).next? b.offset
      = .ok (leadsTo none (roster false post)) :=
    next?_eq (back.off_headers (agreesOff_header _ List.mem_cons_self (Or.inr rfl)) back_apart) lt_of_none
  refine Call.Ensures.ask_bind place (Call.Ensures.ask_bind size ?_)
  refine Call.Ensures.run_bind (run_setBlockSize space) (Call.Ensures.ask_bind next ?_)
  refine Call.Ensures.run_bind (run_setNext (by exact (size_writeWord ..).symm ▸ space)) ?_
  refine Call.Ensures.bind ((setSuccessor_parted laid free wide).mono False.elim fun _ _ => id) ?_
  intro _ h' parted
  have size₁ : h'.region.size = h.region.size := parted.alters.region.sameSize
  refine Call.Ensures.run_bind (run_setBlockSize (by omega)) ?_
  have bytes : (h'.putWord (b.offset + 8) request).overflow.add request headerSize
      = .ok (request + 16) := Overflow.add_eq_ok (by unfold headerSize; omega)
  refine Call.Ensures.ask_bind bytes (count_ensures.mono ?_ ?_)
  · rintro ⟨fault, stopped⟩
    change h'.usage.allocate (request + 16) h'.overflow = .error fault at stopped
    rw [parted.alters.usage, parted.alters.overflow] at stopped
    have enough := laid.size_le_free free
    exact Usage.not_canAllocate_of_allocate (by omega) stopped
  · rintro _ _ ⟨usage, counted, rfl⟩
    change h'.usage.allocate (request + 16) h'.overflow = .ok usage at counted
    rw [parted.alters.usage, parted.alters.overflow] at counted
    exact cut_of_parted laid wide parted counted

/-- A found block leaves the free chain, cut or whole. -/
theorem takeFound_cut (laid : h.Laid (pre ++ b :: post)) (free : b.live = false) :
    (takeFound ⟨lastFrom none (roster false pre), b.offset, b.size⟩ request).Ensures h
      (¬ h.usage.CanAllocate h.overflow) fun _ h' => Cut h h' request pre b post := by
  have limit : h.region.size < 0x8000000000000000 := h.region.sizeLt
  have room := laid.room (List.mem_append_right pre List.mem_cons_self)
  unfold takeFound
  by_cases wide : request + 16 < b.size
  · have splits : request + headerSize < 0x10000000000000000 ∧ request + headerSize < b.size :=
      ⟨by unfold headerSize; omega, wide⟩
    rw [if_pos splits]
    exact split_cut laid free wide
  · rw [if_neg fun splits => wide splits.2]
    exact unlink_cut laid free wide

/-- The search finds the first free block that is large enough. -/
theorem Laid.firstFit_eq (laid : h.Laid (pre ++ b :: post)) (free : b.live = false)
    (fits : request ≤ b.size) (first : ∀ c ∈ pre, ¬ (c.live = false ∧ request ≤ c.size)) :
    h.firstFit request = .ok (some ⟨lastFrom none (roster false pre), b.offset, b.size⟩) := by
  have leads := laid.leads .free
  have spread := laid.spread false
  simp only [Chain.live] at leads
  rw [roster_of_live free] at leads spread
  obtain ⟨front, back⟩ := leads_append.1 leads
  obtain ⟨fuel, enough⟩ : ∃ fuel, h.walkBound = (roster false pre).length + (fuel + 1) :=
    (spread.sublist (List.sublist_append_left _ _)).exists_fuel (Nat.le_refl _)
  have head : h.freeHead = leadsTo (leadsTo none (b.toEntry :: roster false post)) (roster false pre) :=
    front.head
  have small := size_lt_of_none_fits first
  rw [firstFit, head, enough, firstFitFrom_append front.chained
    (leadsTo_lt back lt_of_none) small, leadsTo, firstFitFrom, blockSize_eq back]
  simp only [bind, Except.bind, if_pos fits]
  rfl

/-- The search finds nothing if no free block is large enough. -/
theorem Laid.firstFit_eq_none (laid : h.Laid blocks)
    (nowhere : ∀ c ∈ blocks, ¬ (c.live = false ∧ request ≤ c.size)) :
    h.firstFit request = .ok none := by
  have leads := laid.leads .free
  simp only [Chain.live] at leads
  have short := (laid.spread false).length_le
  obtain ⟨fuel, enough⟩ : ∃ fuel, h.walkBound = (roster false blocks).length + fuel :=
    Nat.exists_eq_add_of_le (by unfold walkBound; omega)
  have head : h.freeHead = leadsTo none (roster false blocks) := leads.head
  have small := size_lt_of_none_fits nowhere
  rw [firstFit, head, enough, firstFitFrom_append leads.chained lt_of_none small]
  simp [firstFitFrom, pure, Except.pure]

/-- What a heap is like after a free block was handed out, cut if need be. -/
structure Allocated (h h' : Heap) (request : Nat) (pre : List Block) (b : Block)
    (post : List Block) : Prop where
  laid : h'.Laid (pre ++ (carve 16 16 request b ++ post))
  region : AgreesOff (headers (pre ++ (carve 16 16 request b ++ post))) h.region h'.region
  counted : h.usage.allocate (cost 16 16 request b.size) h.overflow = .ok h'.usage
  overflow : h'.overflow = h.overflow

/-- A block that left the free chain comes to its place on the used chain. -/
theorem insert_allocated {h₁ : Heap} (laid : h.Laid (pre ++ b :: post)) (free : b.live = false)
    (positive : 0 < request) (cut : Cut h h₁ request pre b post) :
    (insertSorted .used b.offset).Ensures h₁ False fun _ h' => Allocated h h' request pre b post := by
  have room := laid.room (List.mem_append_right pre List.mem_cons_self)
  have tiles : Tiles 16 0 (pre ++ (carve 16 16 request b ++ post)) h.region.size :=
    laid.tiles.replace (tiles_carve (by omega) (by omega) (Nat.le_refl _) (Nat.le_refl _))
  have apart := headersApart_of_tiles tiles true
  have spread := tiles.spread_roster true
  rw [Bool.not_true, roster_true_carved, roster_false_carved] at apart
  rw [roster_true_carved, ← cut.region.sameSize] at spread
  refine (insertSorted_ensures (e := (taken 16 request b).toEntry) cut.used spread ?_ cut.size).mono
    id fun _ h' => ?_
  · rw [cut.region.sameSize]
    change b.offset + 16 ≤ _
    omega
  rintro ⟨used, alters⟩
  have written : roster true pre ++ [(taken 16 request b).toEntry]
      ⊆ roster true pre ++ (taken 16 request b).toEntry :: roster true post := by
    rw [List.append_cons (roster true pre) _ (roster true post)]
    exact List.subset_append_left _ _
  have front_apart : HeadersApart (roster true pre ++ [(taken 16 request b).toEntry])
      (roster false pre ++ (roster false (leftover 16 16 request b) ++ roster false post)) :=
    apart.mono written (List.Subset.refl _)
  have idle := cut.free.of_alters alters (by decide) front_apart
  refine ⟨⟨?_, ?_, settled_carve laid.settled free, ?_, ?_⟩, ?_, ?_, ?_⟩
  · rw [alters.region.sameSize, cut.region.sameSize]
    exact tiles
  · exact forall_size_carve laid.positive positive fun wide => by omega
  · intro chain
    cases chain
    · rw [Chain.live, roster_false_carved]
      exact idle
    · rw [Chain.live, roster_true_carved]
      exact used
  · obtain ⟨_, spent, _⟩ := Usage.of_allocate cut.counted
    have before := laid.counted
    have after : freeBytes (pre ++ (carve 16 16 request b ++ post)) + cost 16 16 request b.size
        = freeBytes (pre ++ b :: post) := freeBytes_carved (Nat.le_refl 16) free
    rw [alters.usage]
    omega
  · refine cut.region.trans (alters.region.mono ?_)
    refine Set.Subset.trans (headersOf_mono ?_) (headersOf_roster true _)
    rw [roster_true_carved]
    exact written
  · rw [alters.usage]
    exact cut.counted
  · exact alters.overflow.trans cut.overflow

/-- **An allocation that fits succeeds.** It takes the first free block that is large enough. Only a
counter without room can stop it. -/
theorem tryAllocate_fits (laid : h.Laid (pre ++ b :: post)) (free : b.live = false)
    (positive : 0 < request) (fits : request ≤ b.size)
    (first : ∀ c ∈ pre, ¬ (c.live = false ∧ request ≤ c.size)) :
    (tryAllocate request).Ensures h (¬ h.usage.CanAllocate h.overflow) fun address h' =>
      address = some (h.region.base + (b.offset + 16)) ∧ Allocated h h' request pre b post := by
  have room := laid.room (List.mem_append_right pre List.mem_cons_self)
  unfold tryAllocate
  rw [if_neg (by omega)]
  refine Call.Ensures.ask_bind (laid.firstFit_eq free fits first) ?_
  refine Call.Ensures.bind (takeFound_cut laid free) fun _ h₁ cut => ?_
  refine Call.Ensures.bind ((insert_allocated laid free positive cut).mono False.elim
    fun _ _ => id) fun _ h' allocated => ?_
  have size := allocated.region.sameSize
  have address : (do h'.region.addressOf (← h'.dataOf b.offset))
      = .ok (h.region.base + (b.offset + 16)) := by
    rw [dataOf_eq (by omega), ← allocated.region.sameBase]
    exact h'.region.addressOf_eq_ok (by omega)
  refine Call.Ensures.ask_bind address ?_
  refine Call.Ensures.ask_bind (blockSize_of_room (by simp only; omega)) ?_
  exact Call.Ensures.emit_bind (Call.Ensures.pure ⟨rfl, allocated⟩)

/-- **An allocation that does not fit fails** and leaves the heap as it is. -/
theorem tryAllocate_fails (laid : h.Laid blocks)
    (nowhere : request = 0 ∨ ∀ c ∈ blocks, ¬ (c.live = false ∧ request ≤ c.size)) :
    (tryAllocate request).Ensures h False fun address h' => address = none ∧ h' = h := by
  unfold tryAllocate
  by_cases nothing : request = 0
  · rw [if_pos nothing]
    exact Call.Ensures.pure ⟨rfl, rfl⟩
  · rw [if_neg nothing]
    refine Call.Ensures.ask_bind (laid.firstFit_eq_none (nowhere.resolve_left nothing)) ?_
    exact Call.Ensures.emit_bind (Call.Ensures.pure ⟨rfl, rfl⟩)

/-- How a request can be answered: by the first free block that is large enough, or not at all. -/
inductive Allocation (h : Heap) (blocks : List Block) (request : Nat) : Option Nat → Heap → Prop
  | refused (nowhere : request = 0 ∨ ∀ c ∈ blocks, ¬ (c.live = false ∧ request ≤ c.size)) :
      Allocation h blocks request none h
  | granted {pre post : List Block} {b : Block} {h' : Heap} (parts : blocks = pre ++ b :: post)
      (free : b.live = false) (fits : request ≤ b.size)
      (first : ∀ c ∈ pre, ¬ (c.live = false ∧ request ≤ c.size))
      (allocated : Allocated h h' request pre b post) :
      Allocation h blocks request (some (h.region.base + (b.offset + 16))) h'

/-- **An allocation takes a block that fits or changes nothing.** -/
theorem tryAllocate_ensures (laid : h.Laid blocks) (request : Nat) :
    (tryAllocate request).Ensures h (¬ h.usage.CanAllocate h.overflow)
      (Allocation h blocks request) := by
  have refuses : (request = 0 ∨ ∀ c ∈ blocks, ¬ (c.live = false ∧ request ≤ c.size)) →
      (tryAllocate request).Ensures h (¬ h.usage.CanAllocate h.overflow)
        (Allocation h blocks request) := by
    intro nowhere
    refine (tryAllocate_fails laid nowhere).mono False.elim ?_
    rintro _ _ ⟨rfl, rfl⟩
    exact .refused nowhere
  by_cases nothing : request = 0
  · exact refuses (Or.inl nothing)
  rcases exists_first (fun c => c.live = false ∧ request ≤ c.size) blocks with
    nowhere | ⟨pre, b, post, rfl, ⟨free, fits⟩, first⟩
  · exact refuses (Or.inr nowhere)
  · refine (tryAllocate_fits laid free (Nat.pos_of_ne_zero nothing) fits first).mono id ?_
    rintro _ h' ⟨rfl, allocated⟩
    exact .granted rfl free fits first allocated

end RegionAlloc.TwoList.Heap
