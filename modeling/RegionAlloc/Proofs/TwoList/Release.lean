import RegionAlloc.Proofs.Counting
import RegionAlloc.Proofs.TwoList.Laid

/-!
# What a release makes of the layout of a two-list heap

The pass over the free chain merges the free entries that touch (`mergeFrom_ensures`), and that is
what `Block.coalesce` makes of the blocks (`mergeTouching_ensures`). A release of a live block turns
it into a free one and merges it with its neighbours (`release_live`); a release of any other address
changes nothing (`run_release_foreign`).
-/

namespace RegionAlloc.TwoList.Heap

open Block Region

variable {h h' : Heap} {e f : Entry} {rest es : List Entry} {b : Block} {pre post blocks : List Block}

/-! ## The merge pass -/

/-- The heaps before and after the free entries `before` were merged to be `after`. -/
structure Merges (before after : List Entry) (h h' : Heap) : Prop where
  region : AgreesOff (headersOf before) h.region h'.region
  head : ∀ chain, h'.headOf chain = h.headOf chain
  fewer : after.length ≤ before.length
  freed : h.overflow.Gains (16 * (before.length - after.length)) h.usage.free h'.usage.free
  usage : h'.usage = { h.usage with free := h'.usage.free }
  overflow : h'.overflow = h.overflow

private theorem Merges.refl (es : List Entry) (h : Heap) : Merges es es h h :=
  ⟨AgreesOff.refl _ _, fun _ => rfl, Nat.le_refl _, Or.inl ⟨by omega, rfl⟩, rfl, rfl⟩

private theorem Merges.trans {xs ys zs : List Entry} {h'' : Heap} (first : Merges xs ys h h')
    (second : Merges ys zs h' h'') (subset : headersOf ys ⊆ headersOf xs) : Merges xs zs h h'' where
  region := first.region.trans (second.region.mono subset)
  head chain := (second.head chain).trans (first.head chain)
  fewer := Nat.le_trans second.fewer first.fewer
  freed := by
    have fewer := first.fewer
    have fewer' := second.fewer
    have total := first.freed.trans (first.overflow ▸ second.freed)
    rwa [show 16 * (xs.length - ys.length) + 16 * (ys.length - zs.length)
      = 16 * (xs.length - zs.length) by omega] at total
  usage := by
    rw [second.usage, first.usage]
  overflow := second.overflow.trans first.overflow

/-- The heap once an entry has taken in the next one, with nothing counted yet. -/
def putJoined (h : Heap) (e f : Entry) (rest : List Entry) : Heap :=
  (h.putWord (e.offset + 8) (e.size + 16 + f.size)).putWord e.offset (code (leadsTo none rest))

/-- All that can stop a merge is the counter of free bytes. -/
theorem run_joinNext (chained : Chained code h.region none (e :: f :: rest))
    (spread : Spread 16 h.region.size (e :: f :: rest)) :
    (joinNext e.offset f.offset).run h
      = (count (Usage.reclaim headerSize)).run (h.putJoined e f rest) := by
  have limit : h.region.size < 0x8000000000000000 := h.region.sizeLt
  have second := spread.inside f (List.mem_cons_of_mem _ List.mem_cons_self)
  have order := (List.pairwise_cons.1 spread.apart).1 f List.mem_cons_self
  have size : h.joinedSize e.offset f.offset = .ok (e.size + 16 + f.size) := by
    rw [joinedSize, blockSize_eq chained, blockSize_eq chained.2.2.2]
    simp only [bind, Except.bind]
    rw [show headerSize = 16 from rfl, Overflow.add_eq_ok (by omega)]
    exact Overflow.add_eq_ok (by omega)
  have apart : HeadersApart [e] (f :: rest) := headersApart_of_spread spread
  have next : (h.putWord (e.offset + 8) (e.size + 16 + f.size)).next? f.offset
      = .ok (leadsTo none rest) :=
    next?_eq (chained.2.2.2.off_headers (agreesOff_header _ List.mem_cons_self (Or.inr rfl)) apart)
      lt_of_none
  have room : e.offset + 16 ≤ (h.putWord (e.offset + 8) (e.size + 16 + f.size)).region.size :=
    (size_writeWord ..).symm ▸ chained.1
  refine (Call.run_ask_bind (s := h) size).trans ?_
  refine (Call.run_bind_of_quiet (run_setBlockSize chained.1)).trans ?_
  refine (Call.run_ask_bind (s := h.putWord _ _) next).trans ?_
  exact Call.run_bind_of_quiet (run_setNext room)

/-- An entry takes in the next one. -/
theorem joinNext_ensures (chained : Chained code h.region none (e :: f :: rest))
    (spread : Spread 16 h.region.size (e :: f :: rest)) :
    (joinNext e.offset f.offset).Ensures h (h.usage.Overruns h.overflow 16) fun _ h' =>
      Chained code h'.region none (⟨e.offset, e.size + 16 + f.size⟩ :: rest) ∧
        Merges (e :: f :: rest) (⟨e.offset, e.size + 16 + f.size⟩ :: rest) h h' := by
  have limit : h.region.size < 0x8000000000000000 := h.region.sizeLt
  have second := spread.inside f (List.mem_cons_of_mem _ List.mem_cons_self)
  have order := (List.pairwise_cons.1 spread.apart).1 f List.mem_cons_self
  have apart : HeadersApart [e] (f :: rest) := headersApart_of_spread spread
  have joined : HeadersApart [⟨e.offset, e.size + 16 + f.size⟩] rest := by
    intro x same y member
    obtain rfl := List.mem_singleton.1 same
    exact (headersApart_cons.1 apart).2 e List.mem_cons_self y member
  have merged := chained_putHeader (e := ⟨e.offset, e.size + 16 + f.size⟩) chained.2.2.2.2.2.2
    chained.1 (by simp only; omega) joined
  refine Call.Ensures.of_same_run (run_joinNext chained spread) ?_
  refine Call.Ensures.change_of_plan (fun fault stopped => (Usage.overruns_of_reclaim stopped).2) ?_
  intro usage counted
  obtain ⟨sum, others⟩ := Usage.of_reclaim counted
  refine ⟨merged, ?_, fun chain => ?_, Nat.le_succ _, ?_, others, rfl⟩
  · exact (agreesOff_header _ List.mem_cons_self (Or.inr rfl)).trans
      (agreesOff_header _ List.mem_cons_self (Or.inl rfl))
  · cases chain <;> rfl
  · rw [List.length_cons, List.length_cons, List.length_cons, Nat.add_sub_cancel_left]
    exact Or.inr sum

private theorem headersOf_joined (e f : Entry) (size : Nat) (rest : List Entry) :
    headersOf (⟨e.offset, size⟩ :: rest) ⊆ headersOf (e :: f :: rest) := by
  rintro i ⟨d, member, inside⟩
  rcases List.mem_cons.1 member with rfl | behind
  · exact ⟨e, List.mem_cons_self, inside⟩
  · exact ⟨d, List.mem_cons_of_mem _ (List.mem_cons_of_mem _ behind), inside⟩

private theorem endOf_eq (chained : Chained code h.region none (e :: es))
    (fits : e.offset + (16 + e.size) < 0x10000000000000000) :
    h.endOf e.offset = .ok (e.offset + (16 + e.size)) := by
  rw [endOf, dataOf_eq chained.1, blockSize_eq chained]
  exact (Overflow.add_eq_ok (by omega)).trans (congrArg _ (by omega))

/-- The pass ends at the last entry. -/
theorem run_mergeFrom_last (chained : Chained code h.region none [e]) (fuel : Nat) :
    (mergeFrom ([e].length + fuel) (leadsTo none [e])).run h = ⟨.ok (), h, []⟩ := by
  rw [leadsTo, List.length_singleton, Nat.add_comm, mergeFrom]
  exact (Call.run_ask_bind (s := h) (next?_eq chained lt_of_none)).trans rfl

section Steps

variable (chained : Chained code h.region none (e :: f :: rest))
  (spread : Spread 16 h.region.size (e :: f :: rest)) (fuel : Nat)

include chained spread

/-- The first step of the pass looks at the first two entries. -/
theorem run_mergeFrom_cons :
    (mergeFrom ((e :: f :: rest).length + fuel) (leadsTo none (e :: f :: rest))).run h =
      (if e.offset + (16 + e.size) = f.offset then do
          joinNext e.offset f.offset
          mergeFrom ((f :: rest).length + fuel) (some e.offset)
        else mergeFrom ((f :: rest).length + fuel) (some f.offset)).run h := by
  have limit : h.region.size < 0x8000000000000000 := h.region.sizeLt
  have last := spread.inside e List.mem_cons_self
  have ends := endOf_eq chained (show e.offset + (16 + e.size) < 0x10000000000000000 by omega)
  rw [leadsTo, List.length_cons, Nat.add_right_comm, mergeFrom]
  refine (Call.run_ask_bind (s := h) (next?_eq chained lt_of_none)).trans ?_
  exact Call.run_ask_bind (s := h) ends

/-- Where they touch the pass goes on from the joined one. -/
theorem run_mergeFrom_touch (touch : e.offset + (16 + e.size) = f.offset) :
    (mergeFrom ((e :: f :: rest).length + fuel) (leadsTo none (e :: f :: rest))).run h =
      (joinNext e.offset f.offset >>= fun _ =>
        mergeFrom ((⟨e.offset, e.size + 16 + f.size⟩ :: rest : List Entry).length + fuel)
          (leadsTo none (⟨e.offset, e.size + 16 + f.size⟩ :: rest))).run h := by
  rw [run_mergeFrom_cons chained spread fuel, if_pos touch]
  rfl

/-- Where they do not touch the pass goes on from the second one. -/
theorem run_mergeFrom_apart (apart : e.offset + (16 + e.size) ≠ f.offset) :
    (mergeFrom ((e :: f :: rest).length + fuel) (leadsTo none (e :: f :: rest))).run h =
      (mergeFrom ((f :: rest).length + fuel) (leadsTo none (f :: rest))).run h := by
  rw [run_mergeFrom_cons chained spread fuel, if_neg apart]
  rfl

end Steps

/-- The pass over a list of free entries merges those that touch. -/
theorem mergeFrom_ensures (chained : Chained code h.region none es)
    (spread : Spread 16 h.region.size es) (fuel : Nat) :
    (mergeFrom (es.length + fuel) (leadsTo none es)).Ensures h
      (h.usage.Overruns h.overflow (16 * (es.length - (joinTouching 16 es).length))) fun _ h' =>
      Chained code h'.region none (joinTouching 16 es) ∧ Merges es (joinTouching 16 es) h h' := by
  induction es using joinTouching.induct 16 generalizing h with
  | case1 =>
    rw [joinTouching, leadsTo, mergeFrom]
    exact Call.Ensures.pure ⟨chained, Merges.refl [] h⟩
  | case2 e =>
    rw [joinTouching]
    exact Call.Ensures.of_run (run_mergeFrom_last chained fuel) ⟨chained, Merges.refl [e] h⟩
  | case3 e f rest touch ih =>
    have fewer := length_joinTouching_le 16 (⟨e.offset, e.size + 16 + f.size⟩ :: rest)
    rw [joinTouching_of_touch touch]
    refine Call.Ensures.of_same_run (run_mergeFrom_touch chained spread fuel touch) ?_
    simp only [List.length_cons] at fewer ⊢
    refine Call.Ensures.bind ((joinNext_ensures chained spread).mono ?_ fun _ _ => id) ?_
    · rintro ⟨traps, large⟩
      exact ⟨traps, by omega⟩
    rintro _ h₁ ⟨joined, merges⟩
    have size := merges.region.sameSize
    refine (ih joined (size ▸ spread.join touch)).mono ?_ ?_
    · rintro ⟨traps, large⟩
      rw [merges.overflow] at traps
      have freed := merges.freed
      rw [traps] at freed
      have sum := freed.eq_of_trap
      simp only [List.length_cons] at sum large
      exact ⟨traps, by omega⟩
    · rintro _ h' ⟨chained', merges'⟩
      exact ⟨chained', merges.trans merges' (headersOf_joined e f _ rest)⟩
  | case4 e f rest apart ih =>
    have removed : (e :: f :: rest).length - (e :: joinTouching 16 (f :: rest)).length
        = (f :: rest).length - (joinTouching 16 (f :: rest)).length := Nat.add_sub_add_right ..
    rw [joinTouching_of_apart apart, removed]
    refine Call.Ensures.of_same_run (run_mergeFrom_apart chained spread fuel apart) ?_
    refine (ih chained.2.2.2 (spread.sublist (List.sublist_cons_self e _))).mono id ?_
    rintro _ h' ⟨chained', merges⟩
    have tail : headersOf (f :: rest) ⊆ headersOf (e :: f :: rest) :=
      headersOf_mono (List.subset_cons_self e _)
    have seam : Chained code h.region none ([e] ++ f :: rest) := chained
    have apart' : HeadersApart [e] (f :: rest) := headersApart_of_spread spread
    obtain ⟨space, link, size, _⟩ :=
      (chained_append.1 seam).1.off_headers merges.region apart'.symm
    refine ⟨⟨space, ?_, size, chained'⟩, ?_⟩
    · rw [leadsTo_joinTouching]
      exact link
    · refine ⟨merges.region.mono tail, merges.head, Nat.succ_le_succ merges.fewer, ?_, merges.usage,
        merges.overflow⟩
      rw [removed]
      exact merges.freed

/-- The pass starts with the first free block, and with steps enough for all of them. -/
theorem exists_run_mergeTouching (leads : h.Leads .free es none)
    (spread : Spread 16 h.region.size es) :
    ∃ fuel, mergeTouching.run h = (mergeFrom (es.length + fuel) (leadsTo none es)).run h := by
  obtain ⟨fuel, enough⟩ : ∃ fuel, h.walkBound * h.walkBound = es.length + fuel := by
    have short := spread.length_le
    apply Nat.exists_eq_add_of_le
    refine Nat.le_trans ?_ (Nat.le_mul_of_pos_left _ (Nat.succ_pos _))
    exact Nat.le_succ_of_le short
  refine ⟨fuel, ?_⟩
  unfold mergeTouching
  rw [Call.run_state_bind, enough, show h.freeHead = leadsTo none es from leads.head]

/-- The merge pass joins the free blocks that touch. -/
theorem mergeTouching_joins (leads : h.Leads .free es none) (spread : Spread 16 h.region.size es) :
    mergeTouching.Ensures h
      (h.usage.Overruns h.overflow (16 * (es.length - (joinTouching 16 es).length))) fun _ h' =>
      h'.Leads .free (joinTouching 16 es) none ∧ Merges es (joinTouching 16 es) h h' := by
  obtain ⟨fuel, run⟩ := exists_run_mergeTouching leads spread
  refine Call.Ensures.of_same_run run ?_
  refine (mergeFrom_ensures leads.chained spread fuel).mono id ?_
  rintro _ h' ⟨chained', merges⟩
  refine ⟨⟨?_, chained'⟩, merges⟩
  rw [merges.head, leadsTo_joinTouching]
  exact leads.head

/-- What a heap is like after free blocks that follow one another were merged. -/
structure Merged (h h' : Heap) (blocks : List Block) : Prop where
  laid : h'.Laid (coalesce 16 blocks)
  region : AgreesOff (headers blocks) h.region h'.region
  usage : h'.usage = { h.usage with free := h'.usage.free }
  overflow : h'.overflow = h.overflow

/-- The merge pass settles a heap that is laid out but for free blocks that follow one another. -/
theorem mergeTouching_ensures (tiles : Tiles 16 0 blocks h.region.size)
    (positive : ∀ b ∈ blocks, 0 < b.size)
    (leads : ∀ chain : Chain, h.Leads chain (roster chain.live blocks) none)
    (counted : h.usage.free = freeBytes blocks) :
    mergeTouching.Ensures h False fun _ h' => Merged h h' blocks := by
  have limit : h.region.size < 0x8000000000000000 := h.region.sizeLt
  have total := tiles.sum_eq
  have few := length_roster_le false blocks
  have room : h.usage.free + 16 * (roster false blocks).length < 0x10000000000000000 := by
    unfold freeBytes at counted
    omega
  refine (mergeTouching_joins (leads .free) (tiles.spread_roster false)).mono ?_ ?_
  · rintro ⟨_, large⟩
    simp only [Chain.live] at large
    omega
  rintro _ h' ⟨free, merges⟩
  have size := merges.region.sameSize
  have used := (leads .used).chained.off_headers merges.region (headersApart_of_tiles tiles false)
  refine ⟨⟨?_, ?_, settled_coalesce blocks, ?_, ?_⟩, ?_, merges.usage, merges.overflow⟩
  · rw [size]
    exact tiles.coalesce
  · exact forall_size_coalesce positive fun m n first second => by omega
  · intro chain
    cases chain
    · rw [Chain.live, roster_coalesce tiles]
      exact free
    · rw [Chain.live, roster_true_coalesce]
      exact ⟨(merges.head .used).trans (leads .used).head, used⟩
  · have fewer := merges.fewer
    have freed := merges.freed
    have bytes := freeBytes_coalesce 16 blocks
    have kept := length_roster_add blocks
    have after := length_roster_add (coalesce 16 blocks)
    simp only [Chain.live] at fewer freed
    rw [roster_true_coalesce, roster_coalesce tiles] at after
    have sum := freed.eq_of_room (by omega)
    omega
  · exact merges.region.mono (headersOf_roster false blocks)

/-! ## Released addresses -/

/-- An address can be a block's if it lies in the region and a header fits in front of it. -/
theorem nodeAt?_eq (h : Heap) (address : Nat) : h.nodeAt? address =
    if h.region.base + 16 ≤ address ∧ address < h.region.base + h.region.size then
      some (address - h.region.base - 16) else none := by
  unfold nodeAt? Region.offsetOf? headerSize
  by_cases inside : h.region.base ≤ address ∧ address < h.region.base + h.region.size
  · rw [if_pos inside, Option.bind_some]
    by_cases room : 16 ≤ address - h.region.base
    · rw [if_pos room, if_pos ⟨by omega, inside.2⟩]
    · rw [if_neg room, if_neg (by omega)]
  · rw [if_neg inside, if_neg (by omega)]
    rfl

/-- The search for what is not on the used chain finds nothing. -/
theorem findFrom_eq_none (laid : h.Laid blocks) {node : Nat}
    (other : ∀ e ∈ roster true blocks, e.offset ≠ node) :
    h.findFrom node h.walkBound none h.usedHead = .ok none := by
  have leads := laid.leads .used
  have short := (laid.spread true).length_le
  simp only [Chain.live] at leads
  obtain ⟨fuel, enough⟩ : ∃ fuel, h.walkBound = (roster true blocks).length + fuel :=
    Nat.exists_eq_add_of_le (by unfold walkBound; omega)
  rw [show h.usedHead = leadsTo none (roster true blocks) from leads.head, enough,
    findFrom_append leads.chained lt_of_none other]
  simp [findFrom, pure, Except.pure]

/-- **A release of anything but a live block changes nothing** and is logged as a warning. -/
theorem run_release_foreign (laid : h.Laid blocks) {address : Nat}
    (foreign : ∀ e ∈ roster true blocks, address ≠ h.region.base + (e.offset + 16)) :
    (release address).run h = ⟨.ok (), h, [.logged (.twoList
      (if h.region.base + 16 ≤ address ∧ address < h.region.base + h.region.size then
        .unknown address else .outside address))]⟩ := by
  unfold release
  rw [Call.run_state_bind, nodeAt?_eq]
  by_cases inside : h.region.base + 16 ≤ address ∧ address < h.region.base + h.region.size
  · rw [if_pos inside, if_pos inside]
    have other : ∀ e ∈ roster true blocks, e.offset ≠ address - h.region.base - 16 := by
      intro e member same
      exact foreign e member (by omega)
    have absent := findFrom_eq_none laid other
    exact (Call.run_ask_bind (s := h) (a := none) absent).trans rfl
  · rw [if_neg inside, if_neg inside]
    rfl

private theorem nodeAt?_of_laid (laid : h.Laid blocks) (member : b ∈ blocks) :
    h.nodeAt? (h.region.base + (b.offset + 16)) = some b.offset := by
  have room := laid.room member
  have positive := laid.positive b member
  rw [nodeAt?_eq, if_pos ⟨by omega, by omega⟩]
  exact congrArg some (by omega)

private theorem findFrom_eq (laid : h.Laid (pre ++ b :: post)) (live : b.live = true) :
    h.findFrom b.offset h.walkBound none h.usedHead = .ok (some (lastFrom none (roster true pre))) := by
  have leads := laid.leads .used
  have spread := laid.spread true
  simp only [Chain.live] at leads
  rw [roster_of_live live] at leads spread
  obtain ⟨front, back⟩ := leads_append.1 leads
  obtain ⟨fuel, enough⟩ : ∃ fuel, h.walkBound = (roster true pre).length + (fuel + 1) :=
    (spread.sublist (List.sublist_append_left _ _)).exists_fuel (Nat.le_refl _)
  have other : ∀ e ∈ roster true pre, e.offset ≠ b.offset := by
    intro e member
    have := (List.pairwise_append.1 spread.ascending).2.2 e member b.toEntry List.mem_cons_self
    omega
  rw [show h.usedHead = leadsTo (leadsTo none (b.toEntry :: roster true post)) (roster true pre)
    from front.head, enough, findFrom_append front.chained (leadsTo_lt back lt_of_none) other, leadsTo,
    findFrom, if_pos rfl]
  rfl

/-- A heap whose used chain no longer leads to a block that was given back. -/
structure Unlinked (h h' : Heap) (pre : List Block) (b : Block) (post : List Block) : Prop where
  used : h'.Leads .used (roster true pre ++ roster true post) none
  free : h'.Leads .free (roster false pre ++ roster false post) none
  room : b.offset + 16 ≤ h'.region.size
  size : h'.region.readWord (b.offset + 8) = b.size
  alters : Alters .used (headersOf (roster true pre)) h h'

private theorem unlink_live (laid : h.Laid (pre ++ b :: post)) (live : b.live = true) :
    (unlink .used (lastFrom none (roster true pre)) b.offset).Ensures h False fun _ h' =>
      Unlinked h h' pre b post := by
  have used := laid.leads .used
  have free := laid.leads .free
  have spread := laid.spread true
  have apart := headersApart_of_tiles laid.tiles true
  simp only [Chain.live] at used free
  rw [roster_of_live live] at used spread
  rw [Bool.not_true, roster_of_live live] at apart
  refine (unlink_ensures used spread).mono id ?_
  rintro _ h' ⟨used', alters⟩
  have free' := free.of_alters alters (by decide)
    (apart.mono (List.subset_append_left _ _) (List.Subset.refl _))
  rw [roster_false_of_live live] at free'
  have own : HeadersApart (roster true pre) (b.toEntry :: roster true post) :=
    headersApart_of_spread spread
  obtain ⟨room, _, size, _⟩ := (leads_append.1 used).2.off_headers alters.region own
  exact ⟨used', free', room, size, alters⟩

/-- A heap in which a block went from the used to the free chain, not merged with any other yet. -/
structure Moved (h h' : Heap) (pre : List Block) (b : Block) (post : List Block) : Prop where
  free : h'.Leads .free (roster false pre ++ b.toEntry :: roster false post) none
  used : h'.Leads .used (roster true pre ++ roster true post) none
  region : AgreesOff (headers (pre ++ b :: post)) h.region h'.region
  usage : h'.usage = h.usage
  overflow : h'.overflow = h.overflow

private theorem insertSorted_moved {h₁ : Heap} (laid : h.Laid (pre ++ b :: post))
    (unlinked : Unlinked h h₁ pre b post) :
    (insertSorted .free b.offset).Ensures h₁ False fun _ h' => Moved h h' pre b post := by
  obtain ⟨used, free, room, size, alters₁⟩ := unlinked
  have tiles := tiles_freed laid.tiles
  have spread := tiles.spread_roster false
  have apart := headersApart_of_tiles tiles false
  rw [roster_false_freed, ← alters₁.region.sameSize] at spread
  rw [Bool.not_false, roster_false_freed, roster_true_freed] at apart
  refine (insertSorted_ensures free spread room size).mono id ?_
  rintro _ h' ⟨free', alters₂⟩
  have written : roster false pre ++ [b.toEntry] ⊆ roster false pre ++ b.toEntry :: roster false post := by
    rw [List.append_cons (roster false pre) _ (roster false post)]
    exact List.subset_append_left _ _
  refine ⟨free', ?_, (alters₁.region.mono ?_).trans (alters₂.region.mono ?_),
    alters₂.usage.trans alters₁.usage, alters₂.overflow.trans alters₁.overflow⟩
  · exact used.of_alters alters₂ (by decide) (apart.mono written (List.Subset.refl _))
  · refine (headersOf_roster true pre).trans ?_
    exact headersOf_mono (List.map_subset _ (List.subset_append_left _ _))
  · rw [← headers_freed]
    refine Set.Subset.trans (headersOf_mono ?_) (headersOf_roster false _)
    rw [roster_false_freed]
    exact written

/-- What a heap is like after a live block was taken back and merged with its neighbours. -/
structure Released (h h' : Heap) (pre : List Block) (b : Block) (post : List Block) : Prop where
  laid : h'.Laid (coalesce 16 (pre ++ b.freed :: post))
  region : AgreesOff (headers (pre ++ b :: post)) h.region h'.region
  counted : ∃ usage, h.usage.release b.size h.overflow = .ok usage ∧
    h'.usage = { usage with free := h'.usage.free }
  overflow : h'.overflow = h.overflow

/-- A release sets as many bytes free as the block has, or more. -/
theorem Released.returned (released : Released h h' pre b post) (laid : h.Laid (pre ++ b :: post))
    (live : b.live = true) : Usage.Returned h.overflow h.usage h'.usage := by
  obtain ⟨usage, counted, merged⟩ := released.counted
  have fits := laid.free_add_lt (List.mem_append_right pre List.mem_cons_self)
  have before : usage.free = freeBytes (pre ++ b.freed :: post) := by
    rw [freeBytes_freed live, ← laid.counted]
    exact (Usage.of_release fits counted).1
  have after := released.laid.counted
  have gained := freeBytes_coalesce 16 (pre ++ b.freed :: post)
  have fewer := length_coalesce_le 16 (pre ++ b.freed :: post)
  rw [merged]
  refine Usage.returned_of_release fits counted ?_
  omega

/-- Once the block is on the free chain and counted as free, what touches is merged. -/
theorem mergeTouching_released {h₁ : Heap} {usage : Usage} (laid : h.Laid (pre ++ b :: post))
    (live : b.live = true) (moved : Moved h h₁ pre b post)
    (counted : h.usage.release b.size h.overflow = .ok usage) :
    mergeTouching.Ensures { h₁ with usage } False fun _ h' => Released h h' pre b post := by
  have tiles := tiles_freed laid.tiles
  have fits : h.usage.free + b.size < 0x10000000000000000 :=
    laid.free_add_lt (List.mem_append_right pre List.mem_cons_self)
  have leads : ∀ chain : Chain, ({ h₁ with usage } : Heap).Leads chain
      (roster chain.live (pre ++ b.freed :: post)) none := by
    intro chain
    cases chain
    · rw [Chain.live, roster_false_freed]
      exact moved.free.of_usage usage
    · rw [Chain.live, roster_true_freed]
      exact moved.used.of_usage usage
  have total : usage.free = freeBytes (pre ++ b.freed :: post) := by
    rw [freeBytes_freed live, ← laid.counted]
    exact (Usage.of_release fits counted).1
  have positive : ∀ c ∈ pre ++ b.freed :: post, 0 < c.size := forall_size_freed laid.positive
  refine (mergeTouching_ensures ?_ positive leads total).mono id fun _ h' merged => ?_
  · rw [show ({ h₁ with usage } : Heap).region.size = h.region.size from moved.region.sameSize]
    exact tiles
  have region := merged.region
  rw [headers_freed] at region
  exact ⟨merged.laid, moved.region.trans region, ⟨usage, counted, merged.usage⟩,
    merged.overflow.trans moved.overflow⟩

/-- **A release of a live block succeeds.** The block goes back to the free chain and is merged with
the free blocks that touch it. Only a counter of frees without room can stop it. -/
theorem release_live (laid : h.Laid (pre ++ b :: post)) (live : b.live = true) :
    (release (h.region.base + (b.offset + 16))).Ensures h (¬ h.usage.CanFree h.overflow) fun _ h' =>
      Released h h' pre b post := by
  have listed : b ∈ pre ++ b :: post := List.mem_append_right pre List.mem_cons_self
  unfold release
  refine Call.Ensures.state_bind ?_
  rw [nodeAt?_of_laid laid listed]
  refine Call.Ensures.ask_bind (findFrom_eq laid live) ?_
  refine Call.Ensures.bind ((unlink_live laid live).mono False.elim fun _ _ => id) ?_
  intro _ h₁ unlinked
  have found : h₁.blockSize b.offset = .ok b.size :=
    (blockSize_of_room unlinked.room).trans (congrArg _ unlinked.size)
  refine Call.Ensures.ask_bind found ?_
  refine Call.Ensures.bind ((insertSorted_moved laid unlinked).mono False.elim fun _ _ => id) ?_
  intro _ h₂ moved
  refine Call.Ensures.bind (count_ensures.mono ?_ fun _ _ => id) ?_
  · rintro ⟨fault, stopped⟩
    rw [moved.usage, moved.overflow] at stopped
    exact Usage.not_canFree_of_release (laid.free_add_lt listed) stopped
  rintro _ _ ⟨usage, counted, rfl⟩
  rw [moved.usage, moved.overflow] at counted
  exact Call.Ensures.emit_bind
    ((mergeTouching_released laid live moved counted).mono False.elim fun _ _ => id)

/-- What a release makes of a heap: it ignores the address, or takes back the block there. -/
inductive Return (h : Heap) (blocks : List Block) (address : Nat) : Heap → Prop
  | ignored (foreign : ∀ e ∈ roster true blocks, address ≠ h.region.base + (e.offset + 16)) :
      Return h blocks address h
  | took {pre post : List Block} {b : Block} {h' : Heap} (parts : blocks = pre ++ b :: post)
      (live : b.live = true) (place : address = h.region.base + (b.offset + 16))
      (released : Released h h' pre b post) : Return h blocks address h'

/-- **A release takes back the live block at an address if there is one.** -/
theorem release_ensures (laid : h.Laid blocks) (address : Nat) :
    (release address).Ensures h (¬ h.usage.CanFree h.overflow) fun _ h' =>
      Return h blocks address h' := by
  by_cases owned : ∃ e ∈ roster true blocks, address = h.region.base + (e.offset + 16)
  · obtain ⟨e, listed, place⟩ := owned
    obtain ⟨pre, b, post, rfl, live, rfl⟩ := exists_parts listed
    rw [place]
    exact (release_live laid live).mono id fun _ _ released => .took rfl live rfl released
  · have foreign : ∀ e ∈ roster true blocks, address ≠ h.region.base + (e.offset + 16) :=
      fun e member same => owned ⟨e, member, same⟩
    exact Call.Ensures.of_run (run_release_foreign laid foreign) (.ignored foreign)

end RegionAlloc.TwoList.Heap
