import RegionAlloc.Proofs.Holdings
import RegionAlloc.Proofs.Locked

/-!
# Moving memory to a new place

A reallocation takes new memory, copies into it as much of the old as fits, and gives the old back. So
the old block has to stay as it is while others are cut next to it, and the copy has to stay while the
old block is merged with what touches it. Each of the three steps is one that a client could take
itself, and none changes a byte in memory that it is not about (`Picture.Follows`).
-/

namespace RegionAlloc

open Block

private theorem Grant.stored_store (a : Grant) {data : List UInt8} {i : Nat} (inside : i < data.length) :
    (a.store 0 data).stored i = some data[i] := by
  change (if 0 ≤ i ∧ i < 0 + data.length then data[i - 0]? else a.stored i) = some data[i]
  rw [if_pos ⟨Nat.zero_le i, by rwa [Nat.zero_add]⟩, Nat.sub_zero, List.getElem?_eq_getElem inside]

/-- What a client stored from the beginning of its memory on is read there. -/
theorem Backed.readAt_stored {lead gap : Nat} {r : Region} {used : List Entry} {grants : List Grant}
    {a : Grant} {data : List UInt8} (backed : Backed lead gap r used grants)
    (member : a.store 0 data ∈ grants) : r.readAt a.address data.length = data := by
  apply List.ext_getElem
  · exact r.length_readBytes _ _
  intro i _ inside
  have kept := backed.kept _ member i _ (a.stored_store inside)
  simp only [Region.readAt, Region.readBytes, List.getElem_map, List.getElem_range]
  exact kept.2

/-- The client may fill the memory that it was given last. -/
theorem Client.writesOwn_head {σ : Type} {a : Grant} {grants : List Grant} {data : List UInt8}
    (heap : σ) (fits : data.length ≤ a.length) :
    WritesOwn { heap, grants := a :: grants } (.write a.address 0 data) :=
  ⟨a, List.mem_cons_self, rfl, by rwa [Nat.zero_add]⟩

/-- A reallocation is an allocation, a copy and a release. -/
theorem Guarded.ensures_reallocateLayout {σ : Type} [Allocator σ] {body : HookBodies (Guarded σ)}
    {g : Guarded σ} {stop : Prop} {address : Nat} {layout target : Layout}
    {Q P : Option Nat → Guarded σ → Prop} (allocates : (allocateLayout body target).Ensures g stop Q)
    (refused : ∀ left, Q none left → P none left)
    (given : ∀ place left, Q (some place) left → (release address).Ensures
      (HasRegion.modifyRegion left fun region => region.writeAt place
        ((HasRegion.region left).readAt address (min layout.size target.size))) stop
      fun _ left' => P (some place) left') :
    (reallocateLayout body address layout target).Ensures g stop P := by
  apply Call.Ensures.bind allocates
  intro result left holds
  cases result with
  | none => exact Call.Ensures.pure (refused left holds)
  | some place =>
    apply Call.Ensures.run_bind (c := HasRegion.readAt address _) rfl
    apply Call.Ensures.run_bind (c := HasRegion.writeAt place _) rfl
    apply Call.Ensures.bind (given place left holds)
    intro _ left' kept
    exact Call.Ensures.pure kept

namespace Picture

section Reallocations

variable {σ μ : Type} [Allocator σ] [Managed σ μ]

/-- What a client of the heap `h` has after its memory `g` in the block `e` was moved: `size` bytes at
`address`, in a block `d` of their own. They lie apart from all that the client held before, the old
memory included, and begin with the bytes that were there. The old block is part of a free one, and
the rest of what the client holds keeps its bytes. -/
structure Moved (p : Picture σ) (h : σ) (s : Client σ) (live : List Entry) (g : Grant) (e : Entry)
    (size address : Nat) (heap : σ) (free' live' : List Entry) (d : Entry) : Prop where
  reached : Client.Reached h
    { heap
      grants := (Grant.fresh address size).store 0
          ((HasRegion.region s.heap).readAt g.address (min g.length size)) ::
        s.grants.filter fun k => k.address != g.address }
  place : address = p.place d
  room : p.lead + size ≤ p.gap + d.size
  apart : ∀ k ∈ s.grants, address + size ≤ k.address ∨ k.address + k.length ≤ address
  copied : (HasRegion.region heap).readAt address (min g.length size)
    = (HasRegion.region s.heap).readAt g.address (min g.length size)
  fresh : d ∉ live
  live : ∀ f, f ∈ live' ↔ f = d ∨ f ∈ live ∧ f ≠ e
  returned : ∃ whole ∈ free', e.Inside p.gap whole
  others : ∀ k ∈ s.grants, k.address ≠ g.address →
    (HasRegion.region heap).readAt k.address k.length
      = (HasRegion.region s.heap).readAt k.address k.length

/-- How a client's heap with these free and live blocks reallocates the memory `g` in the block `e`. For
too coarse a boundary there is no new memory and nothing changes. Without room the heap is as it was,
the block `e` still live, when the hook runs. With room the memory is moved; only a full counter can
stop that. -/
structure Reallocates (p : Picture σ) (need : Nat → Nat) (h : σ) (s : Client σ) (free live : List Entry)
    (body : HookBodies (Guarded σ)) (g : Grant) (e : Entry) (layout target : Layout) : Prop where
  coarse : Allocator.alignment s.heap < target.align →
    (Guarded.reallocateLayout body g.address layout target).run (.ofHeap s.heap)
      = ⟨.ok none, .ofHeap s.heap, []⟩
  crowded : target.align ≤ Allocator.alignment s.heap → (∀ f ∈ free, f.size < need target.size) →
    RefusedAs body s.heap none
      ((Guarded.reallocateLayout body g.address layout target).run (.ofHeap s.heap))
  moved : target.align ≤ Allocator.alignment s.heap → (∃ f ∈ free, need target.size ≤ f.size) →
    (Guarded.reallocateLayout body g.address layout target).Ensures (.ofHeap s.heap)
      (¬ (Managed.usage s.heap).CanAllocate (Managed.overflow s.heap)) fun result left =>
        ∃ address heap free' live' d, result = some address ∧ left = .ofHeap heap ∧
          Managed.Displays heap free' live' ∧
          p.Moved h s live g e target.size address heap free' live' d

variable {p : Picture σ} {need : Nat → Nat} {h : σ} {s : Client σ} {blocks blocks' : List Block}
  {e d : Entry} {heap : σ} {grants : List Grant} {g a : Grant} {data : List UInt8}
  {size address : Nat}

namespace Follows

variable (follows : p.Follows need)

include follows

private theorem fills (owns : p.Owns { heap, grants := a :: grants } blocks)
    (fits : data.length ≤ a.length) :
    p.Owns
      { heap := HasRegion.modifyRegion heap fun region => region.writeAt a.address data
        grants := a.store 0 data :: grants } blocks := by
  have written := follows.write owns (Client.writesOwn_head heap fits)
  rwa [Grant.map_store_cons owns.nodup] at written

/-- What fills the memory granted last leaves the rest alone. -/
theorem fills_others (owns : p.Owns { heap, grants := a :: grants } blocks)
    (fits : data.length ≤ a.length) {k : Grant} (member : k ∈ grants) :
    (HasRegion.region (HasRegion.modifyRegion heap fun region => region.writeAt a.address data)).readAt
        k.address k.length
      = (HasRegion.region heap).readAt k.address k.length := by
  have noted := follows.fills (a := a.noted (HasRegion.region heap)) owns.noted fits
  apply noted.backed.readAt_eq
  exact List.mem_cons_of_mem _ (List.mem_map_of_mem member)

variable [ClientMove μ] [TakesMoves σ]

/-- The new memory is filled and the old is given back. -/
theorem replaces (order : Client.RunsInOrder h)
    (gave : p.Gave s (roster true blocks) size address heap (roster true blocks') d)
    (owns : p.Owns { heap, grants := Grant.fresh address size :: s.grants } blocks')
    (reached : Client.Reached h { heap, grants := Grant.fresh address size :: s.grants })
    (member : g ∈ s.grants) (listed : e ∈ roster true blocks) (place : g.address = p.place e)
    (old : data = (HasRegion.region s.heap).readAt g.address (min g.length size)) :
    (Allocator.release g.address : Call σ Unit).Ensures
      (HasRegion.modifyRegion heap fun region => region.writeAt address data) False fun _ heap' =>
        ∃ free' live', Managed.Displays heap' free' live' ∧
          p.Moved h s (roster true blocks) g e size address heap' free' live' d := by
  have length : data.length = min g.length size := by
    rw [old]
    exact Region.length_readBytes _ _ _
  have fits : data.length ≤ size := length ▸ Nat.min_le_right _ _
  have filled := follows.fills owns fits
  have own := reached.write (Client.writesOwn_head heap fits)
  rw [Grant.map_store_cons owns.nodup] at own
  have still := (gave.live e).2 (Or.inr listed)
  have held := List.mem_cons_of_mem ((Grant.fresh address size).store 0 data) member
  have room := order.canFree own held
  have different : address ≠ g.address := by
    intro same
    apply (List.nodup_cons.1 owns.nodup).1
    exact List.mem_map.2 ⟨g, member, same.symm⟩
  have struck : (((Grant.fresh address size).store 0 data :: s.grants).filter fun k =>
      k.address != g.address)
        = (Grant.fresh address size).store 0 data :: s.grants.filter fun k => k.address != g.address :=
    List.filter_cons_of_pos (bne_iff_ne.2 different)
  have taken := follows.takes_back filled still
  rw [← place] at taken
  apply (taken.and (own.release held)).mono fun full => full room
  intro _ heap' both
  obtain ⟨⟨blocks'', owns', took⟩, reached'⟩ := both
  rw [struck] at owns' reached'
  rw [old] at reached'
  refine ⟨_, _, p.displays owns'.lies, reached', gave.place, gave.room, gave.apart, ?_, gave.fresh,
    ?_, ?_, ?_⟩
  · have copied := owns'.backed.readAt_stored List.mem_cons_self
    rw [length, old] at copied
    exact copied
  · intro f
    rw [took.live, gave.live]
    constructor
    · intro both
      exact both.1.imp_right fun older => ⟨older, both.2⟩
    · intro either
      rcases either with rfl | ⟨older, other⟩
      · exact ⟨Or.inl rfl, fun same => gave.fresh (same ▸ listed)⟩
      · exact ⟨Or.inr older, other⟩
  · obtain ⟨whole, merges, fused⟩ := took.fused
    exact ⟨whole, fused.mem_whole, fused.inside⟩
  · intro k also other
    rw [took.contents k (List.mem_cons_of_mem _ also) (place ▸ other)]
    exact (follows.fills_others owns fits also).trans (gave.contents k also)

/-- What a reallocation comes to once the heap has given new memory. -/
theorem moves (order : Client.RunsInOrder h) (reached : Client.Reached h s) (owns : p.Owns s blocks)
    (member : g ∈ s.grants) (listed : e ∈ roster true blocks) (place : g.address = p.place e)
    {body : HookBodies (Guarded σ)} {layout target : Layout} (whole : layout.size = g.length)
    (fine : target.align ≤ Allocator.alignment s.heap) (goes : ¬ Refuses s.heap target.size) :
    (Guarded.reallocateLayout body g.address layout target).Ensures (.ofHeap s.heap)
      (¬ (Managed.usage s.heap).CanAllocate (Managed.overflow s.heap)) fun result left =>
        ∃ address heap free' live' d, result = some address ∧ left = .ofHeap heap ∧
          Managed.Displays heap free' live' ∧
          p.Moved h s (roster true blocks) g e target.size address heap free' live' d := by
  have given : (Guarded.allocateLayout body target).Ensures (.ofHeap s.heap)
      (¬ (Managed.usage s.heap).CanAllocate (Managed.overflow s.heap)) fun result left =>
        ∃ address heap blocks' d, result = some address ∧ left = .ofHeap heap ∧
          p.Owns { heap, grants := Grant.fresh address target.size :: s.grants } blocks' ∧
          p.Gave s (roster true blocks) target.size address heap (roster true blocks') d ∧
          Client.Reached h { heap, grants := Grant.fresh address target.size :: s.grants } := by
    apply Guarded.ensures_allocateLayout fine
    apply Guarded.ensures_allocate (follows.clean owns) goes
    apply ((follows.gives owns goes).and (reached.tryAllocate target.size)).mono id
    intro place heap both
    obtain ⟨⟨address, blocks', d, rfl, owns', gave⟩, reached'⟩ := both
    exact ⟨address, heap, blocks', d, rfl, rfl, owns', gave, reached'⟩
  apply Guarded.ensures_reallocateLayout given
  · intro left got
    obtain ⟨address, _, _, _, absurd, _⟩ := got
    cases absurd
  · intro address left got
    obtain ⟨_, heap, blocks', d, same, rfl, owns', gave, reached'⟩ := got
    cases same
    have old : (HasRegion.region heap).readAt g.address (min layout.size target.size)
        = (HasRegion.region s.heap).readAt g.address (min g.length target.size) := by
      have le : min g.length target.size ≤ g.length := Nat.min_le_left _ _
      rw [whole, Region.readAt_eq_take _ _ le, gave.contents g member, ← Region.readAt_eq_take _ _ le]
    apply Guarded.ensures_locked
    apply (follows.replaces order gave owns' reached' member listed place old).mono False.elim
    intro _ heap' replaced
    obtain ⟨free', live', shown, moved⟩ := replaced
    exact ⟨address, heap', free', live', d, rfl, rfl, shown, moved⟩

/-- **Memory is moved with what is in it, or stays.** -/
theorem reallocates (order : Client.RunsInOrder h) (reached : Client.Reached h s)
    (owns : p.Owns s blocks) (member : g ∈ s.grants) (listed : e ∈ roster true blocks)
    (place : g.address = p.place e) (body : HookBodies (Guarded σ)) {layout target : Layout}
    (whole : layout.size = g.length) (asked : 0 < target.size) :
    p.Reallocates need h s (roster false blocks) (roster true blocks) body g e layout target where
  coarse coarse := by
    have routes := (follows.serves owns.lies).routes_agree
    exact Call.run_bind_of_ok (routes.coarseLayout body target coarse)
  crowded fine crowded := by
    have routes := (follows.serves owns.lies).routes_agree
    have refuses := (follows.refuses_iff owns).2 (Or.inr crowded)
    have refused : RefusedAs body s.heap none
        ((Guarded.allocateLayout body target).run (.ofHeap s.heap)) := by
      rw [routes.layout body target asked fine]
      exact (follows.clean owns).refusedAs asked refuses
    exact refused.bind rfl
  moved fine room :=
    follows.moves order reached owns member listed place whole fine
      (follows.not_refuses owns asked room)

end Follows

/-- Where there is a new address, the memory was moved there. -/
theorem Reallocates.moved_of_run {free live : List Entry} {body : HookBodies (Guarded σ)}
    {layout target : Layout} {left : Guarded σ} {events : List Event}
    (reallocates : p.Reallocates need h s free live body g e layout target)
    (run : (Guarded.reallocateLayout body g.address layout target).run (.ofHeap s.heap)
      = ⟨.ok (some address), left, events⟩) :
    ∃ heap free' live' d, left = .ofHeap heap ∧ Managed.Displays heap free' live' ∧
      p.Moved h s live g e target.size address heap free' live' d := by
  by_cases coarse : Allocator.alignment s.heap < target.align
  · have none_given := run.symm.trans (reallocates.coarse coarse)
    cases none_given
  have fine := Nat.le_of_not_lt coarse
  rcases crowded_or_room free (need target.size) with crowded | room
  · have none_given := (reallocates.crowded fine crowded).eq_of_result (congrArg Outcome.result run)
    cases none_given
  · obtain ⟨_, heap, free', live', d, same, rest⟩ := (reallocates.moved fine room).post_of_run run
    cases same
    exact ⟨heap, free', live', d, rest⟩

end Reallocations

end Picture

/-- **A reallocation preserves the data, or changes nothing**, on either kind of heap behind its lock,
in every state that a client can lead to, for all memory that it holds and every new layout. -/
theorem reallocation_preserves_data :
    (∀ {region settings overflow h s}, Tagged.Heap.create region settings overflow = .ok h →
      Tagged.Reached h s → ∃ free live, Managed.Displays s.heap free live ∧ ∀ g ∈ s.grants,
        ∃ e ∈ live, g.address = (Tagged.picture h).place e ∧
          h.headerSize + g.length ≤ e.size ∧
          ∀ body (layout target : Layout), layout.size = g.length → 0 < target.size →
            (Tagged.picture h).Reallocates
              (fun bytes => Word.roundUp (bytes + h.headerSize) h.settings.alignment)
              h s free live body g e layout target) ∧
    ∀ {region overflow h s}, TwoList.Heap.create region overflow = .ok h → TwoList.Reached h s →
      ∃ free live, Managed.Displays s.heap free live ∧ ∀ g ∈ s.grants,
        ∃ e ∈ live, g.address = (TwoList.picture region).place e ∧ g.length ≤ e.size ∧
          ∀ body (layout target : Layout), layout.size = g.length → 0 < target.size →
            (TwoList.picture region).Reallocates (fun bytes => bytes)
              h s free live body g e layout target := by
  constructor
  · intro region settings overflow h s created reached
    obtain ⟨blocks, held⟩ := Tagged.held_reached created reached
    have owns := Tagged.owns_iff.2 held
    refine ⟨_, _, (Tagged.picture h).displays owns.lies, ?_⟩
    intro g member
    obtain ⟨e, listed, place, room⟩ := owns.exists_entry member
    change h.headerSize + g.length ≤ 0 + e.size at room
    rw [Nat.zero_add] at room
    refine ⟨e, listed, place, room, ?_⟩
    intro body layout target whole asked
    exact (Tagged.follows h).reallocates (Tagged.runs_in_order created) reached owns member listed place
      body whole asked
  · intro region overflow h s created reached
    obtain ⟨blocks, held⟩ := TwoList.held_reached created reached
    have owns := TwoList.owns_iff.2 held
    refine ⟨_, _, (TwoList.picture region).displays owns.lies, ?_⟩
    intro g member
    obtain ⟨e, listed, place, room⟩ := owns.exists_entry member
    refine ⟨e, listed, place, Nat.le_of_add_le_add_left room, ?_⟩
    intro body layout target whole asked
    exact (TwoList.follows region).reallocates (TwoList.runs_in_order created) reached owns member
      listed place body whole asked

/-- So many bytes on any boundary. -/
def Layout.anywhere (size : Nat) (small : size < 0x8000000000000000) : Layout :=
  { size, align := 1, isPowerOfTwo := by decide, roundsUp := small }

set_option maxRecDepth 4000 in
/-- After the mixed run there is room for eighteen bytes to grow to thirty. -/
theorem Tagged.reallocate_mixedRun : ∃ h s left events,
    Heap.create oddRegion clearing .trap = .ok h ∧ Reached h s ∧
    s.grants.map (fun g => (g.address, g.length)) = [(4128, 1), (4160, 18)] ∧
    (Guarded.reallocateLayout (fun _ => pure ()) 4160 (.anywhere 18 (by decide))
      (.anywhere 30 (by decide)) : Call (Guarded Heap) _).run (.ofHeap s.heap)
        = ⟨.ok (some 4208), left, events⟩ := by
  obtain ⟨h, created, goes, known⟩ : ∃ h, Heap.create oddRegion clearing .trap = .ok h ∧
      Call.Goes perform Legal (Client.start h) mixedRun ∧
      ((Call.after perform (Client.start h) mixedRun).grants.map fun g => (g.address, g.length),
        ((Guarded.reallocateLayout (fun _ => pure ()) 4160 (.anywhere 18 (by decide))
          (.anywhere 30 (by decide)) : Call (Guarded Heap) _).run
            (.ofHeap (Call.after perform (Client.start h) mixedRun).heap)).result.toOption)
        = ([(4128, 1), (4160, 18)], some (some 4208)) := ⟨_, rfl, by decide +kernel⟩
  obtain ⟨s, left, events, reached, granted, run⟩ := Call.exists_run_after
    (fun s => s.grants.map fun g => (g.address, g.length)) (fun s => Guarded.ofHeap s.heap) goes known
  exact ⟨h, s, left, events, created, reached, granted, run⟩

/-- After the small run there is room for three bytes to grow to five. -/
theorem TwoList.reallocate_smallRun : ∃ h s left events,
    Heap.create smallRegion .trap = .ok h ∧ Reached h s ∧
    s.grants.map (fun g => (g.address, g.length)) = [(4136, 3)] ∧
    (Guarded.reallocateLayout (fun _ => pure ()) 4136 (.anywhere 3 (by decide))
      (.anywhere 5 (by decide)) : Call (Guarded Heap) _).run (.ofHeap s.heap)
        = ⟨.ok (some 4115), left, events⟩ := by
  obtain ⟨h, created, goes, known⟩ : ∃ h, Heap.create smallRegion .trap = .ok h ∧
      Call.Goes Client.perform Client.WritesOwn (Client.start h) smallRun ∧
      ((Call.after Client.perform (Client.start h) smallRun).grants.map
        fun g => (g.address, g.length),
        ((Guarded.reallocateLayout (fun _ => pure ()) 4136 (.anywhere 3 (by decide))
          (.anywhere 5 (by decide)) : Call (Guarded Heap) _).run
            (.ofHeap (Call.after Client.perform (Client.start h) smallRun).heap)).result.toOption)
        = ([(4136, 3)], some (some 4115)) := ⟨_, rfl, by decide +kernel⟩
  obtain ⟨s, left, events, reached, granted, run⟩ := Call.exists_run_after
    (fun s => s.grants.map fun g => (g.address, g.length)) (fun s => Guarded.ofHeap s.heap) goes known
  exact ⟨h, s, left, events, created, reached, granted, run⟩

/-- Both heaps in the middle of a run: a block of eighteen bytes is moved to thirty, and one of three
to five. -/
theorem reallocation_preserves_data_on_runs :
    (∃ (h : Tagged.Heap) (s : Client Tagged.Heap) (g : Grant) (free live : List Entry) (e : Entry)
      (heap : Tagged.Heap) (free' live' : List Entry) (d : Entry),
      s.grants.map (fun g => (g.address, g.length)) = [(4128, 1), (4160, 18)] ∧ g ∈ s.grants ∧
      Managed.Displays s.heap free live ∧ e ∈ live ∧ 4160 = (Tagged.picture h).place e ∧
      Managed.Displays heap free' live' ∧
      (Tagged.picture h).Moved h s live g e 30 4208 heap free' live' d) ∧
    ∃ (h : TwoList.Heap) (s : Client TwoList.Heap) (g : Grant) (free live : List Entry) (e : Entry)
      (heap : TwoList.Heap) (free' live' : List Entry) (d : Entry),
      s.grants.map (fun g => (g.address, g.length)) = [(4136, 3)] ∧ g ∈ s.grants ∧
      Managed.Displays s.heap free live ∧ e ∈ live ∧
      4136 = (TwoList.picture TwoList.smallRegion).place e ∧ Managed.Displays heap free' live' ∧
      (TwoList.picture TwoList.smallRegion).Moved h s live g e 5 4115 heap free' live' d := by
  constructor
  · obtain ⟨h, s, left, events, created, reached, granted, run⟩ := Tagged.reallocate_mixedRun
    obtain ⟨free, live, shown, moves⟩ := reallocation_preserves_data.1 created reached
    obtain ⟨g, member, address, length⟩ := Grant.exists_of_map granted 4160 18 (by decide)
    obtain ⟨e, listed, place, _, moves⟩ := moves g member
    have reallocates := moves (fun _ => pure ()) (.anywhere 18 (by decide)) (.anywhere 30 (by decide))
      length.symm (by decide)
    rw [← address] at run
    obtain ⟨heap, free', live', d, _, shown', moved⟩ := reallocates.moved_of_run run
    exact ⟨h, s, g, free, live, e, heap, free', live', d, granted, member, shown, listed,
      address.symm.trans place, shown', moved⟩
  · obtain ⟨h, s, left, events, created, reached, granted, run⟩ := TwoList.reallocate_smallRun
    obtain ⟨free, live, shown, moves⟩ := reallocation_preserves_data.2 created reached
    obtain ⟨g, member, address, length⟩ := Grant.exists_of_map granted 4136 3 (by decide)
    obtain ⟨e, listed, place, _, moves⟩ := moves g member
    have reallocates := moves (fun _ => pure ()) (.anywhere 3 (by decide)) (.anywhere 5 (by decide))
      length.symm (by decide)
    rw [← address] at run
    obtain ⟨heap, free', live', d, _, shown', moved⟩ := reallocates.moved_of_run run
    exact ⟨h, s, g, free, live, e, heap, free', live', d, granted, member, shown, listed,
      address.symm.trans place, shown', moved⟩

end RegionAlloc
