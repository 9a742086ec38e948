import RegionAlloc.Proofs.Coalesce
import RegionAlloc.Proofs.Tagged.Laid

/-!
# What a release makes of the layout of a tagged heap

A block that comes into the free list is joined with the entry in front of it if they touch, and then
with the entry behind it if they touch (`insertFree_ensures`). In a settled heap these are all the
entries that touch, so the free blocks are merged as `Block.coalesce` merges them, and a release of a
live block lays the heap out again (`release_live`).
-/

namespace RegionAlloc.Tagged.Heap

open Block Region

variable {h h' : Heap} {e f : Entry} {front back : List Entry} {b : Block} {pre post blocks : List Block}

private theorem endsAt_eq {stop : Nat} (size : h.blockSize e.offset = .ok e.size)
    (fits : e.offset + e.size < 0x10000000000000000) :
    h.endsAt e.offset stop = .ok (decide (e.offset + e.size = stop)) := by
  rw [endsAt, size]
  simp only [bind, Except.bind, Overflow.add_eq_ok fits]
  rfl

private theorem joinedSize_eq (first : h.blockSize e.offset = .ok e.size)
    (second : h.blockSize f.offset = .ok f.size) (fits : e.size + f.size < 0x10000000000000000) :
    h.joinedSize e.offset f.offset = .ok (e.size + 0 + f.size) := by
  rw [joinedSize, first, second]
  exact Overflow.add_eq_ok fits

private theorem blockSize_of_word (room : e.offset + 16 ≤ h.region.size)
    (word : h.region.readWord (e.offset + 8) = e.size) (small : e.size < 0x8000000000000000) :
    h.blockSize e.offset = .ok e.size := by
  rw [blockSize_of_room room, word, Nat.mod_eq_of_lt small]

/-- An entry is linked to the list behind it, or joined with the first entry there. -/
theorem linkAfter_ensures (inside : h.endMarker + 16 ≤ h.region.size)
    (chained : Chained (code h.settings) h.region none (back ++ [h.marker]))
    (size : h.region.readWord (f.offset + 8) = f.size)
    (spread : Spread 0 h.endMarker (f :: back)) (admits : h.Admits back)
    (place : h.IsPlace h.endMarker) (untouching : Untouching 0 back) :
    (linkAfter f.offset (startOf h.endMarker back)).Ensures h False fun _ h' =>
      Chained (code h'.settings) h'.region none (joinTouching 0 (f :: back) ++ [h.marker]) ∧
        Alters (headersOf [f]) h h' ∧ h'.headLink = h.headLink := by
  have limit : h.region.size < 0x8000000000000000 := h.region.sizeLt
  have wide := spread.room f List.mem_cons_self
  have high := spread.inside f List.mem_cons_self
  have own := blockSize_of_word (by omega) size (by omega)
  have room : f.offset + 16 ≤ h.region.size := by omega
  have apart : HeadersApart [f] (back ++ [h.marker]) := by
    refine headersApart_append.2 ⟨headersApart_of_spread spread, headersApart_marker fun x same => ?_⟩
    obtain rfl := List.mem_singleton.1 same
    omega
  have placed : h.Placed (leadsTo none (back ++ [h.marker])) := by
    rw [leadsTo_append]
    exact admits.placed place
  -- Where the entry does not touch the next one, it is only linked to it.
  have linked : (setNext (.block f.offset) (some (startOf h.endMarker back))).Ensures h False
      fun _ h' => Chained (code h'.settings) h'.region none (f :: (back ++ [h.marker])) ∧
        Alters (headersOf [f]) h h' ∧ h'.headLink = h.headLink := by
    rw [← leadsTo_marked]
    exact Call.Ensures.of_run (run_setNext_block room) ⟨chained_putNext inside chained placed room size
      apart, alters_putNext_block _ List.mem_cons_self rfl, rfl⟩
  unfold linkAfter
  refine Call.Ensures.state_bind ?_
  refine Call.Ensures.ask_bind (endsAt_eq own (by omega)) ?_
  cases back with
  | nil =>
    rw [joinTouching, if_neg (by simp [startOf])]
    exact linked
  | cons q rest =>
    have q_high := spread.inside q (List.mem_cons_of_mem _ List.mem_cons_self)
    have q_wide := spread.room q (List.mem_cons_of_mem _ List.mem_cons_self)
    have proper : q.offset ≠ h.endMarker := by omega
    by_cases touch : f.offset + f.size = q.offset
    · rw [if_pos (by simp [startOf, touch, proper])]
      have behind := blockSize_eq chained (by omega)
      have tail : HeadersApart [⟨f.offset, f.size + 0 + q.size⟩] (rest ++ [h.marker]) := by
        intro x same y member
        obtain rfl := List.mem_singleton.1 same
        exact apart f List.mem_cons_self y (List.mem_cons_of_mem _ member)
      have after_placed : h.Placed (leadsTo none (rest ++ [h.marker])) := by
        rw [leadsTo_append]
        exact admits.of_cons.placed place
      have after : h.next? (.block q.offset) = .ok (leadsTo none (rest ++ [h.marker])) :=
        next?_block inside chained after_placed
      refine Call.Ensures.ask_bind (joinedSize_eq own behind (by omega)) ?_
      refine Call.Ensures.ask_bind after ?_
      refine Call.Ensures.run_bind (run_setSize room (by omega)) ?_
      refine Call.Ensures.of_run (run_setNext_block (by rw [size_putSize]; exact room)) ⟨?_, ?_, rfl⟩
      · rw [joinTouching_of_touch (by omega), joinTouching_of_untouching ?_]
        · exact chained_putHeader (e := ⟨f.offset, f.size + 0 + q.size⟩) inside chained.2.2.2
            after_placed room (by simp only; omega) tail
        · exact untouching.join (by omega)
      · exact alters_putHeader f _ .free _
    · rw [if_neg (by simp [startOf, touch])]
      rw [joinTouching_of_apart (by omega), joinTouching_of_untouching untouching]
      exact linked

/-- A heap into whose free list a block can come, between the entries `front` and `back`. -/
structure Ready (h : Heap) (front : List Entry) (e : Entry) (back : List Entry) : Prop where
  inside : h.endMarker + 16 ≤ h.region.size
  leads : h.Leads (front ++ (back ++ [h.marker])) none
  size : h.region.readWord (e.offset + 8) = e.size
  spread : Spread 0 h.endMarker (front ++ e :: back)
  admits : h.Admits (front ++ back)
  place : h.IsPlace h.endMarker
  frontUntouching : Untouching 0 front
  backUntouching : Untouching 0 back

/-- The place of a block is in front of the entries above it. -/
theorem Ready.placeOf_eq (ready : Ready h front e back) :
    h.placeOf e.offset = .ok (anchorFrom .head front, startOf h.endMarker back) := by
  obtain ⟨inside, leads, _, spread, admits, place, _, _⟩ := ready
  obtain ⟨leads, _⟩ := leads_append.1 leads
  rw [leadsTo_marked] at leads
  have front_admits : h.Admits front := fun f member => admits f (List.mem_append_left _ member)
  have back_admits : h.Admits back := fun f member => admits f (List.mem_append_right _ member)
  have behind : h.IsPlace (startOf h.endMarker back) :=
    back_admits.placed place _ (leadsTo_some h.endMarker back)
  have start : h.next .head = .ok (startOf (startOf h.endMarker back) front) := by
    refine next_of_next? ((next?_head inside leads (front_admits.placed behind)).trans ?_)
    rw [leadsTo_some]
  obtain ⟨_, tail, cross⟩ := List.pairwise_append.1 spread.ascending
  have below : ∀ f ∈ front, f.offset < e.offset := fun f member =>
    cross f member e List.mem_cons_self
  have above : ¬ startOf h.endMarker back < e.offset := by
    cases back with
    | nil =>
      have := spread.inside e (List.mem_append_right _ List.mem_cons_self)
      simp only [startOf]
      omega
    | cons q rest =>
      have := (List.pairwise_cons.1 tail).1 q List.mem_cons_self
      simp only [startOf]
      omega
  obtain ⟨fuel, enough⟩ : ∃ fuel, h.walkBound = front.length + (fuel + 1) :=
    (spread.sublist (List.sublist_append_left _ _)).exists_fuel (by omega)
  rw [placeOf, start, enough]
  refine (placeFrom_append inside leads.chained behind front_admits (fuel + 1) below .head).trans ?_
  rw [placeFrom, if_neg above]
  rfl

/-- What the free list is like after a block came into it. Only headers of the list are written, not
those of the entries that disappear. -/
structure Inserted (h h' : Heap) (front : List Entry) (e : Entry) (back : List Entry) : Prop where
  leads : h'.Leads (joinTouching 0 (front ++ e :: back) ++ [h.marker]) none
  alters : Alters (headersOf (joinTouching 0 (front ++ e :: back))) h h'

/-- A block in front takes in the one that starts where it ends. -/
theorem mergeBefore_touching {p : Entry} (first : h.blockSize p.offset = .ok p.size)
    (second : h.blockSize e.offset = .ok e.size) (room : p.offset + 16 ≤ h.region.size)
    (small : e.offset + e.size < 0x8000000000000000) (touch : p.offset + p.size = e.offset) :
    (mergeBefore (.block p.offset) e.offset).Ensures h False fun merged h' =>
      merged = p.offset ∧ h' = h.putSize (p.offset + 8) (p.size + 0 + e.size) .free := by
  unfold mergeBefore
  refine Call.Ensures.ask_bind (endsAt_eq first (by omega)) ?_
  rw [if_pos (decide_eq_true touch)]
  refine Call.Ensures.ask_bind (joinedSize_eq first second (by omega)) ?_
  exact Call.Ensures.run_bind (run_setSize room (by omega)) (Call.Ensures.pure ⟨rfl, rfl⟩)

/-- A block that does not start where the last entry in front of it ends is not taken in. -/
theorem mergeBefore_apart {link : Option Nat}
    (chained : Chained (code h.settings) h.region link front) (spread : Spread 0 h.endMarker front)
    (inside : h.endMarker + 16 ≤ h.region.size) (untouching : Untouching 0 (front ++ [e])) :
    (mergeBefore (anchorFrom .head front) e.offset).Ensures h False fun merged h' =>
      merged = e.offset ∧ h = h' := by
  have limit : h.region.size < 0x8000000000000000 := h.region.sizeLt
  rcases front.eq_nil_or_concat' with rfl | ⟨before, p, rfl⟩
  · exact Call.Ensures.pure ⟨rfl, rfl⟩
  have last : p ∈ before ++ [p] := List.mem_append_right _ List.mem_cons_self
  have high := spread.inside p last
  have found := blockSize_of_word (chained.room last) (chained.size_of_mem last) (by omega)
  rw [List.append_assoc] at untouching
  have seam := (List.isChain_cons_cons.1 (List.isChain_append.1 untouching).2.1).1
  rw [anchorFrom_concat]
  unfold mergeBefore
  refine Call.Ensures.ask_bind (endsAt_eq found (by omega)) ?_
  rw [if_neg (by simp only [decide_eq_true_eq]; omega)]
  exact Call.Ensures.pure ⟨rfl, rfl⟩

/-- A block that touches the entry in front of it is joined with that. -/
theorem insertFree_joined {p : Entry} (ready : Ready h (front ++ [p]) e back)
    (touch : p.offset + p.size = e.offset) :
    (insertFree e.offset).Ensures h False fun _ h' => Inserted h h' (front ++ [p]) e back := by
  have limit : h.region.size < 0x8000000000000000 := h.region.sizeLt
  have placeOf := ready.placeOf_eq
  obtain ⟨inside, leads, size, spread, admits, place, untouching, backUntouching⟩ := ready
  rw [anchorFrom_concat] at placeOf
  rw [List.append_assoc] at leads spread
  obtain ⟨front_leads, chained⟩ := leads_append.1 leads
  have tail_spread : Spread 0 h.endMarker (p :: e :: back) :=
    spread.sublist (List.sublist_append_right _ _)
  have joined := tail_spread.join (by omega)
  have e_wide := tail_spread.room e (List.mem_cons_of_mem _ List.mem_cons_self)
  have e_high := tail_spread.inside e (List.mem_cons_of_mem _ List.mem_cons_self)
  have first := blockSize_eq chained (by omega)
  have second := blockSize_of_word (e := e) (by omega) size (by omega)
  have room : p.offset + 16 ≤ h.region.size := chained.1
  have front_apart : HeadersApart [p] front :=
    ((headersApart_cons.1 (headersApart_of_spread spread)).1).symm
  have back_apart : HeadersApart [p] (back ++ [h.marker]) := by
    refine headersApart_append.2 ⟨(headersApart_cons.1 (headersApart_of_spread tail_spread)).2,
      headersApart_marker fun x same => ?_⟩
    obtain rfl := List.mem_singleton.1 same
    omega
  have alters₁ : Alters (headersOf [p]) h
      (h.putSize (p.offset + 8) (p.size + 0 + e.size) .free) :=
    alters_putSize _ _ List.mem_cons_self rfl
  have back_admits : h.Admits back := fun f member => admits f (List.mem_append_right _ member)
  refine Call.Ensures.ask_bind placeOf ?_
  -- The block in front takes in the new one.
  refine Call.Ensures.bind (mergeBefore_touching first second room (by omega) touch) ?_
  rintro _ _ ⟨rfl, rfl⟩
  -- It is the last one of those in front, so no link leads to anywhere else than before.
  have linked := linkAfter_ensures (f := ⟨p.offset, p.size + 0 + e.size⟩) (alters₁.inside inside)
    (alters₁.chained chained.2.2.2 back_apart)
    (h.region.readWord_writeWord (by simp only [Tag.bit]; omega) (by omega)) joined
    (alters₁.admits back_admits) (alters₁.isPlace place) backUntouching
  refine Call.Ensures.bind linked ?_
  rintro _ h' ⟨chained', alters₂, head⟩
  unfold linkFrom
  rw [if_pos rfl]
  have same : headersOf [⟨p.offset, p.size + 0 + e.size⟩] = headersOf [p] := by
    ext i
    simp [headersOf]
  rw [same] at alters₂
  have parts : joinTouching 0 (front ++ [p] ++ e :: back)
      = front ++ joinTouching 0 (p :: e :: back) := by
    rw [List.append_assoc, List.singleton_append, joinTouching_append untouching]
  refine Call.Ensures.pure ⟨?_, ?_⟩
  · rw [parts, joinTouching_of_touch (by omega), List.append_assoc]
    refine leads_append.2 ⟨?_, chained'⟩
    rw [leadsTo_append, leadsTo_joinTouching]
    exact alters₂.leads head (alters₁.leads rfl front_leads front_apart) front_apart
  · rw [parts]
    refine (alters₁.trans alters₂).mono ?_
    exact Set.Subset.trans (headersOf_first_joinTouching 0 p (e :: back))
      (headersOf_mono (List.subset_append_right _ _))

/-- A block that does not touch the entry in front of it is linked to from there. -/
theorem insertFree_linked (ready : Ready h front e back) (untouching : Untouching 0 (front ++ [e])) :
    (insertFree e.offset).Ensures h False fun _ h' => Inserted h h' front e back := by
  have limit : h.region.size < 0x8000000000000000 := h.region.sizeLt
  have placeOf := ready.placeOf_eq
  obtain ⟨inside, leads, size, spread, admits, place, _, backUntouching⟩ := ready
  obtain ⟨front_leads, chained⟩ := leads_append.1 leads
  have front_spread := spread.sublist (List.sublist_append_left _ _)
  have back_spread : Spread 0 h.endMarker (e :: back) :=
    spread.sublist (List.sublist_append_right _ _)
  have high := back_spread.inside e List.mem_cons_self
  obtain ⟨own_apart, lists_apart⟩ := headersApart_cons.1 (headersApart_of_spread spread)
  have back_admits : h.Admits back := fun f member => admits f (List.mem_append_right _ member)
  refine Call.Ensures.ask_bind placeOf ?_
  refine Call.Ensures.bind (mergeBefore_apart front_leads.chained front_spread inside untouching) ?_
  rintro _ _ ⟨rfl, rfl⟩
  refine Call.Ensures.bind (linkAfter_ensures inside chained size back_spread back_admits place
    backUntouching) ?_
  rintro _ h₁ ⟨chained₁, alters₁, head⟩
  have other : anchorFrom .head front ≠ .block e.offset := by
    intro same
    obtain ⟨p, member, place⟩ := exists_of_anchorFrom same
    have := (List.pairwise_append.1 spread.ascending).2.2 p member e List.mem_cons_self
    omega
  unfold linkFrom
  rw [if_neg other]
  have front_leads₁ := alters₁.leads head front_leads own_apart.symm
  refine (setNext_ensures front_leads₁ front_spread ?_).mono id ?_
  · intro o same
    obtain rfl := Option.some.inj same
    omega
  rintro _ h' ⟨redirected, alters₂⟩
  have merged_apart : HeadersApart front (joinTouching 0 (e :: back) ++ [h.marker]) :=
    headersApart_append.2 ⟨headersApart_joinTouching (headersApart_of_spread spread),
      headersApart_marker_of_spread front_spread⟩
  refine ⟨?_, ?_⟩
  · rw [joinTouching_append untouching, List.append_assoc]
    refine leads_append.2 ⟨?_, alters₂.chained chained₁ merged_apart⟩
    rw [leadsTo_append, leadsTo_joinTouching]
    exact redirected
  · rw [joinTouching_append untouching]
    refine (alters₁.mono ?_).trans (alters₂.mono (headersOf_mono (List.subset_append_left _ _)))
    exact Set.Subset.trans (headersOf_first_joinTouching 0 e back)
      (headersOf_mono (List.subset_append_right _ _))

/-- A block comes into the free list and is joined with the entries that touch it. -/
theorem insertFree_ensures (ready : Ready h front e back) :
    (insertFree e.offset).Ensures h False fun _ h' => Inserted h h' front e back := by
  rcases front.eq_nil_or_concat' with rfl | ⟨before, p, rfl⟩
  · exact insertFree_linked ready (List.IsChain.singleton e)
  by_cases touch : p.offset + p.size = e.offset
  · exact insertFree_joined ready touch
  · refine insertFree_linked ready (List.isChain_append.2 ⟨ready.frontUntouching,
      List.IsChain.singleton e, fun x last y first => ?_⟩)
    obtain rfl : p = x := by simpa using last
    obtain rfl : e = y := by simpa using first
    omega

/-! ## Live blocks -/

private theorem releasable_eq (laid : h.Laid blocks) (member : b ∈ blocks) (live : b.live = true) :
    h.releasable (h.region.base + (b.offset + h.headerSize)) = .ok b.offset := by
  have inside := laid.inside
  obtain ⟨high, wide, header⟩ := laid.room member
  have stamped := laid.stamped _ (mem_roster.2 ⟨b, member, live, rfl⟩)
  have place : h.region.offsetOf? (h.region.base + (b.offset + h.headerSize))
      = some (b.offset + h.headerSize) := h.region.offsetOf?_eq_some.2 ⟨rfl, by omega⟩
  have block : h.blockAt? (h.region.base + (b.offset + h.headerSize)) = some b.offset := by
    rw [blockAt?, place, Option.bind_some, if_pos (by omega)]
    exact congrArg some (by omega)
  have tag : h.blockTag b.offset = .ok .allocated := blockTag_of_stamped stamped
  have word : h.region.loadWord b.offset = .ok (h.encodeLink none) :=
    (h.region.loadWord_eq_ok (by omega)).trans (congrArg _ stamped.link)
  rw [releasable, block]
  simp only [checkPlace, if_pos (laid.isPlace member), bind, Except.bind,
    if_neg (show ¬ h.endMarker ≤ b.offset by omega), tag, word]
  rfl

/-- The payload of a block is what follows its header. -/
theorem payload_eq {block size : Nat} (fits : block + size ≤ h.region.size)
    (wide : h.headerSize ≤ size) :
    h.payload block size = .ok (block + h.headerSize, size - h.headerSize) := by
  have limit : h.region.size < 0x8000000000000000 := h.region.sizeLt
  rw [payload, Overflow.add_eq_ok (by omega), Overflow.sub_eq_ok wide]
  simp only [bind, Except.bind, checkRange, if_pos (show block + h.headerSize +
    (size - h.headerSize) ≤ h.region.size by omega)]
  rfl

/-- Only the payload of a released block is overwritten. -/
theorem clearIfAsked_ensures {block size : Nat} (fits : block + size ≤ h.region.size)
    (wide : h.headerSize ≤ size) :
    (clearIfAsked block size).Ensures h False fun _ h' =>
      Alters {i | block + h.headerSize ≤ i ∧ i < block + size} h h' ∧ h'.headLink = h.headLink := by
  unfold clearIfAsked
  refine Call.Ensures.state_bind ?_
  by_cases asked : h.settings.clearOnFree = true
  · rw [if_pos asked]
    refine Call.Ensures.change (payload_eq fits wide) ⟨⟨⟨rfl, rfl, rfl, rfl, rfl⟩, ?_, rfl⟩, rfl⟩
    refine agreesOff_writeBytes fun i low high => ⟨low, ?_⟩
    rw [List.length_replicate] at high
    omega
  · rw [if_neg asked]
    exact Call.Ensures.pure ⟨⟨⟨rfl, rfl, rfl, rfl, rfl⟩, AgreesOff.refl _ _, rfl⟩, rfl⟩

/-- A heap in which a block was tagged as free, and its payload perhaps overwritten. -/
structure Cleared (h h' : Heap) (b : Block) : Prop where
  alters : Alters (h.payloadBytes b) (h.putSize (b.offset + 8) b.size .free) h'
  head : h'.headLink = h.headLink

/-- After a live block was tagged as free, its payload can be cleared. -/
theorem cleared_ensures (laid : h.Laid (pre ++ b :: post)) :
    (clearIfAsked b.offset b.size).Ensures (h.putSize (b.offset + 8) b.size .free) False fun _ h' =>
      Cleared h h' b := by
  have inside := laid.inside
  obtain ⟨high, wide, _⟩ := laid.room (List.mem_append_right pre List.mem_cons_self)
  have fits : b.offset + b.size ≤ (h.putSize (b.offset + 8) b.size .free).region.size := by
    rw [size_putSize]
    omega
  refine (clearIfAsked_ensures fits (Nat.le_of_lt wide)).mono id ?_
  rintro _ h₁ ⟨alters, head⟩
  exact ⟨alters, head⟩

/-- Only the counters change besides, and the block can still come into the free list. -/
theorem Ready.recount (ready : Ready h front e back) (usage : Usage) :
    Ready { h with usage } front e back :=
  ⟨ready.inside, ⟨ready.leads.head, ready.leads.chained⟩, ready.size, ready.spread, ready.admits,
    ready.place, ready.frontUntouching, ready.backUntouching⟩

section Releasing

variable {h₁ : Heap} {usage : Usage} (laid : h.Laid (pre ++ b :: post)) (live : b.live = true)
  (cleared : Cleared h h₁ b)

private theorem alters_putFree (h : Heap) (b : Block) :
    Alters (headersOf [b.toEntry]) h (h.putSize (b.offset + 8) b.size .free) :=
  alters_putSize _ _ List.mem_cons_self rfl

include laid live cleared

/-- Once a block was tagged as free and its payload cleared, it can come into the free list. -/
theorem ready_of_cleared : Ready h₁ (roster false pre) b.toEntry (roster false post) := by
  obtain ⟨alters, head⟩ := cleared
  have limit : h.region.size < 0x8000000000000000 := h.region.sizeLt
  have inside := laid.inside
  have listed : b ∈ pre ++ b :: post := List.mem_append_right pre List.mem_cons_self
  obtain ⟨high, wide, header⟩ := laid.room listed
  have leads := laid.leads
  have admits := laid.admits
  have untouching := laid.settled.untouching laid.tiles
  have subset := roster_subset false (pre ++ b :: post)
  have spread := (tiles_freed laid.tiles).spread_roster false
  have apart := laid.tiles.headersApart_inside (e := b.toEntry) (Nat.le_refl _) (by omega) false
  rw [roster_false_of_live live] at leads admits untouching subset
  rw [roster_false_freed] at spread
  have alters₁ := alters_putFree h b
  have endMarker : h₁.endMarker = h.endMarker := alters.endMarker
  have marker_apart : HeadersApart [b.toEntry] [h.marker] := by
    refine headersApart_marker fun x same => ?_
    obtain rfl := List.mem_singleton.1 same
    omega
  have leads₁ := alters₁.leads rfl leads (headersApart_append.2 ⟨apart, marker_apart⟩)
  have leads₂ := alters.leads_of_clear head leads₁ (laid.payload_clear listed subset)
  have own : Clear (h.payloadBytes b) [b.toEntry] := by
    intro e same i low below
    obtain rfl := List.mem_singleton.1 same
    rintro ⟨above, _⟩
    omega
  refine ⟨alters.inside (alters₁.inside inside), ?_, ?_, ?_, alters.admits (alters₁.admits admits),
    ?_, ?_, ?_⟩
  · rw [marker, endMarker, ← List.append_assoc]
    exact leads₂
  · rw [alters.region.readWord_eq fun i low below =>
      own _ List.mem_cons_self i (by omega) (by omega)]
    exact h.region.readWord_writeWord (by simp only [Tag.bit]; omega) (by omega)
  · rw [endMarker]
    exact spread
  · rw [endMarker]
    exact alters.isPlace (alters₁.isPlace laid.isPlace_endMarker)
  · exact (List.isChain_append.1 untouching).1
  · exact (List.isChain_append.1 untouching).2.1

variable (inserted : Inserted { h₁ with usage } h' (roster false pre) b.toEntry (roster false post))

include inserted

/-- The other live blocks are stamped as before. -/
theorem stamped_of_inserted :
    ∀ e ∈ roster true (coalesce 0 (pre ++ b.freed :: post)), Stamped h'.settings h'.region e := by
  have listed : b ∈ pre ++ b :: post := List.mem_append_right pre List.mem_cons_self
  obtain ⟨high, wide, header⟩ := laid.room listed
  rw [roster_true_coalesce, roster_true_freed]
  intro e member
  have single : [e] ⊆ roster true pre ++ roster true post :=
    List.cons_subset.2 ⟨member, List.nil_subset _⟩
  have used : e ∈ roster true (pre ++ b :: post) := by
    rw [roster_of_live live]
    exact (List.Sublist.append_left (List.sublist_cons_self _ _) _).subset member
  have own := laid.tiles.headersApart_inside (e := b.toEntry) (Nat.le_refl _) (by omega) true
  have lists := headersApart_of_tiles (tiles_freed laid.tiles) false
  rw [Bool.not_false, roster_false_freed, roster_true_freed] at lists
  have clear := laid.payload_clear listed (List.cons_subset.2
    ⟨roster_subset true _ used, List.nil_subset _⟩)
  have stamped₁ := (alters_putFree h b).stamped (laid.stamped e used)
    (own.mono (List.Subset.refl _) single)
  have stamped₂ := cleared.alters.stamped_of_clear stamped₁ fun x inside =>
    clear x (List.mem_append_left _ inside)
  exact inserted.alters.stamped stamped₂
    (headersApart_joinTouching (lists.mono (List.Subset.refl _) single).symm).symm

omit laid live in
/-- Nothing was written but headers and the payload of the block. -/
theorem agreesOff_of_inserted :
    AgreesOff (headers (pre ++ b :: post) ∪ h.payloadBytes b) h.region h'.region := by
  have listed : b ∈ pre ++ b :: post := List.mem_append_right pre List.mem_cons_self
  have own : headersOf [b.toEntry] ⊆ headers (pre ++ b :: post) :=
    headersOf_mono (List.cons_subset.2 ⟨List.mem_map_of_mem listed, List.nil_subset _⟩)
  have free : headersOf (joinTouching 0 (roster false pre ++ b.toEntry :: roster false post))
      ⊆ headers (pre ++ b :: post) := by
    rw [← headers_freed, ← roster_false_freed]
    exact Set.Subset.trans (headersOf_joinTouching 0 _) (headersOf_roster false _)
  refine (((alters_putFree h b).region.mono ?_).trans (cleared.alters.region.mono ?_)).trans
    (inserted.alters.region.mono ?_)
  · exact own.trans Set.subset_union_left
  · exact Set.subset_union_right
  · exact free.trans Set.subset_union_left

end Releasing

/-- What a heap is like after a live block was taken back and merged with its neighbours. -/
structure Released (h h' : Heap) (pre : List Block) (b : Block) (post : List Block) : Prop where
  laid : h'.Laid (coalesce 0 (pre ++ b.freed :: post))
  region : AgreesOff (headers (pre ++ b :: post) ∪ h.payloadBytes b) h.region h'.region
  alike : Alike h h'
  counted : h.usage.release b.size h.overflow = .ok h'.usage

/-- A release returns the bytes of the block to the free ones. -/
theorem Released.returned (released : Released h h' pre b post) (laid : h.Laid (pre ++ b :: post)) :
    Usage.Returned h.overflow h.usage h'.usage :=
  Usage.returned_of_release (laid.free_add_lt (List.mem_append_right pre List.mem_cons_self))
    released.counted (Nat.le_refl _)

/-- Once the block came into the free list, the heap is laid out again. -/
theorem released_of_inserted {h₁ : Heap} {usage : Usage} (laid : h.Laid (pre ++ b :: post))
    (live : b.live = true) (cleared : Cleared h h₁ b)
    (counted : h.usage.release b.size h.overflow = .ok usage)
    (inserted : Inserted { h₁ with usage } h' (roster false pre) b.toEntry (roster false post)) :
    Released h h' pre b post := by
  have tiles := tiles_freed laid.tiles
  have region := agreesOff_of_inserted cleared inserted
  have before : Alike h h₁ := (alters_putFree h b).toAlike.trans cleared.alters.toAlike
  have alike : Alike h h' := before.trans ⟨inserted.alters.settings, inserted.alters.start,
    inserted.alters.endMarker, inserted.alters.hook, inserted.alters.overflow⟩
  refine ⟨⟨laid.formed.of_alike alike region.sameBase region.sameSize, ?_, ?_, settled_coalesce _, ?_,
    stamped_of_inserted laid live cleared inserted, ?_⟩, region, alike, ?_⟩
  · rw [alike.start, alike.endMarker]
    exact tiles.coalesce
  · have sizes : ∀ c ∈ pre ++ b.freed :: post, h.settings.alignment ∣ c.size ∧
        h.headerSize + h.settings.alignment ≤ c.size :=
      forall_size_freed (P := fun size => h.settings.alignment ∣ size ∧
        h.headerSize + h.settings.alignment ≤ size) laid.sizes
    rw [headerSize, alike.settings]
    refine forall_size_coalesce (P := fun size => h.settings.alignment ∣ size ∧
      h.headerSize + h.settings.alignment ≤ size) sizes ?_
    rintro m n ⟨multiple, wide⟩ ⟨multiple', _⟩
    exact ⟨Nat.dvd_add multiple multiple', by omega⟩
  · rw [roster_coalesce tiles, roster_false_freed, marker, alike.endMarker]
    have leads := inserted.leads
    rw [marker, show ({ h₁ with usage } : Heap).endMarker = h.endMarker from before.endMarker] at leads
    exact leads
  · have merged := freeBytes_coalesce 0 (pre ++ b.freed :: post)
    have freed : freeBytes (pre ++ b.freed :: post) = freeBytes (pre ++ b :: post) + b.size :=
      freeBytes_freed live
    have fits := laid.free_add_lt (List.mem_append_right pre List.mem_cons_self)
    obtain ⟨total, _⟩ := Usage.of_release fits counted
    have held := laid.counted
    rw [inserted.alters.usage]
    simp only
    omega
  · rw [inserted.alters.usage]
    exact counted

/-- A release of a live block tags it as free, clears it and counts it, and then brings it into the
free list. Only a counter of frees without room can stop it before. -/
theorem release_ensures_of_inserts {stop : Prop} {Q P : Heap → Prop}
    (laid : h.Laid (pre ++ b :: post)) (live : b.live = true)
    (clears : (clearIfAsked b.offset b.size).Ensures (h.putSize (b.offset + 8) b.size .free) True
      fun _ h₁ => Q h₁)
    (full : ¬ h.usage.CanFree h.overflow → stop)
    (inserts : ∀ h₁ usage, Cleared h h₁ b → Q h₁ → h.usage.release b.size h.overflow = .ok usage →
      (insertFree b.offset).Ensures { h₁ with usage } stop fun _ h' => P h') :
    (release (h.region.base + (b.offset + h.headerSize))).Ensures h stop fun _ h' => P h' := by
  have limit : h.region.size < 0x8000000000000000 := h.region.sizeLt
  have inside := laid.inside
  have listed : b ∈ pre ++ b :: post := List.mem_append_right pre List.mem_cons_self
  obtain ⟨high, wide, header⟩ := laid.room listed
  unfold release
  rw [if_neg (by omega)]
  refine Call.Ensures.ask_bind (releasable_eq laid listed live) ?_
  refine Call.Ensures.ask_bind (laid.blockSize_eq listed) ?_
  refine Call.Ensures.run_bind (run_setSize (by omega) (by omega)) ?_
  refine Call.Ensures.bind (((cleared_ensures laid).and clears).mono False.elim fun _ _ => id) ?_
  rintro _ h₁ ⟨cleared, holds⟩
  refine Call.Ensures.bind (count_ensures.mono ?_ fun _ _ => id) ?_
  · rintro ⟨fault, stopped⟩
    rw [cleared.alters.usage, cleared.alters.overflow] at stopped
    exact full (Usage.not_canFree_of_release (laid.free_add_lt listed) stopped)
  rintro _ _ ⟨usage, counted, rfl⟩
  rw [cleared.alters.usage, cleared.alters.overflow] at counted
  refine Call.Ensures.bind (inserts h₁ usage cleared holds counted) ?_
  intro _ h' inserted
  exact Call.Ensures.emit inserted

/-- **A release of a live block succeeds.** The block goes back to the free list and is merged with
the free blocks that touch it; of the rest of the region only headers change. Only a counter of frees
without room can stop it. -/
theorem release_live (laid : h.Laid (pre ++ b :: post)) (live : b.live = true) :
    (release (h.region.base + (b.offset + h.headerSize))).Ensures h
      (¬ h.usage.CanFree h.overflow) fun _ h' => Released h h' pre b post := by
  refine release_ensures_of_inserts (Q := fun _ => True) laid live
    ((cleared_ensures laid).mono False.elim fun _ _ _ => trivial) id ?_
  intro h₁ usage cleared _ counted
  have ready := (ready_of_cleared laid live cleared).recount usage
  refine (insertFree_ensures ready).mono False.elim ?_
  intro _ h' inserted
  exact released_of_inserted laid live cleared counted inserted

/-- The null address is ignored. -/
theorem release_null (h : Heap) : (release 0).Ensures h False fun _ h' => h' = h := by
  unfold release
  rw [if_pos rfl]
  exact Call.Ensures.pure rfl

/-- What a release makes of a heap: it ignores the address, or takes back the block there. -/
inductive Return (h : Heap) (blocks : List Block) (address : Nat) : Heap → Prop
  | ignored (foreign : ∀ e ∈ roster true blocks, address ≠ h.region.base + (e.offset + h.headerSize)) :
      Return h blocks address h
  | took {pre post : List Block} {b : Block} {h' : Heap} (parts : blocks = pre ++ b :: post)
      (live : b.live = true) (place : address = h.region.base + (b.offset + h.headerSize))
      (released : Released h h' pre b post) : Return h blocks address h'

/-- **A release of a live block takes it back, and the null address is ignored.** -/
theorem release_ensures (laid : h.Laid blocks) {address : Nat}
    (owned : address = 0 ∨ ∃ e ∈ roster true blocks,
      address = h.region.base + (e.offset + h.headerSize)) :
    (release address).Ensures h (¬ h.usage.CanFree h.overflow) fun _ h' =>
      Return h blocks address h' := by
  rcases owned with rfl | ⟨e, listed, place⟩
  · have positive := h.region.basePos
    refine (release_null h).mono False.elim ?_
    rintro _ _ rfl
    exact .ignored fun e _ => by omega
  · obtain ⟨pre, b, post, rfl, live, rfl⟩ := exists_parts listed
    rw [place]
    exact (release_live laid live).mono id fun _ _ released => .took rfl live rfl released

end RegionAlloc.Tagged.Heap
