import RegionAlloc.Proofs.Accounts
import RegionAlloc.Proofs.Backed
import RegionAlloc.Proofs.TwoList.Allocation
import RegionAlloc.Proofs.TwoList.Release

/-!
# Runs of a two-list heap

A client of a two-list heap allocates, releases any address whatever, and writes into what it was
given. Each move keeps the heap laid out and the ledger backed by its live blocks, and enters the
books (`held_perform`). So every run is in order (`runs_in_order`), and at every point of it the heap
is as the two chains say and the client's memory is safe.
-/

namespace RegionAlloc.TwoList

open Block Region

variable {region : Region} {overflow : Overflow} {h : Heap} {s : Client Heap} {blocks : List Block}
  {pre post : List Block} {b : Block}

/-- The heap of a client lies in the region as these blocks, and the live ones back its ledger. -/
structure Held (region : Region) (s : Client Heap) (blocks : List Block) : Prop where
  laid : s.heap.Laid blocks
  backed : Backed 16 16 s.heap.region (roster true blocks) s.grants
  base : s.heap.region.base = region.base
  size : s.heap.region.size = region.size

/-- Any address may be released. -/
instance : Managed Heap Move where
  perform := Client.perform
  Legal := Client.WritesOwn
  usage h := h.usage
  overflow h := h.overflow
  statistics := Heap.statistics
  isSound := Heap.isSound
  Displays h free live := h.entries .free = .ok free ∧ h.entries .used = .ok live

private theorem held_start (created : Heap.create region overflow = .ok h) :
    ∃ blocks, Held region (Client.start h) blocks := by
  obtain ⟨large, _⟩ := Heap.usage_of_create created
  obtain ⟨h', made, laid, base, size, _⟩ := Heap.laid_create overflow large
  obtain rfl := Except.ok.inj (made.symm.trans created)
  exact ⟨_, laid, Backed.nil 16 16 _, base, size⟩

/-- A block that is handed out extends the ledger. -/
theorem Held.granted {request : Nat} {heap : Heap} (held : Held region s (pre ++ b :: post))
    (allocated : Heap.Allocated s.heap heap request pre b post) (free : b.live = false)
    (fits : request ≤ b.size) :
    Held region
      { heap, grants := Grant.fresh (s.heap.region.base + (b.offset + 16)) request :: s.grants }
      (pre ++ (carve 16 16 request b ++ post)) := by
  obtain ⟨laid, backed, base, size⟩ := held
  have agrees := allocated.region
  refine ⟨allocated.laid, ?_, agrees.sameBase.trans base, agrees.sameSize.trans size⟩
  exact backed.carved free (Nat.le_refl 16) allocated.laid.tiles agrees fits (Nat.le_refl _)

/-- A block that is taken back is struck off the ledger. -/
theorem Held.released {heap : Heap} (held : Held region s (pre ++ b :: post))
    (released : Heap.Released s.heap heap pre b post) (live : b.live = true) :
    Held region
      { heap
        grants := s.grants.filter fun g =>
          g.address != s.heap.region.base + (b.offset + 16) }
      (coalesce 16 (pre ++ b.freed :: post)) := by
  obtain ⟨laid, backed, base, size⟩ := held
  have agrees := released.region
  refine ⟨released.laid, ?_, agrees.sameBase.trans base, agrees.sameSize.trans size⟩
  exact backed.freed live (Nat.le_refl 16) laid.tiles (agrees.mono Set.subset_union_left)

/-- An allocation extends the ledger by the block that it takes, if it takes one. -/
theorem held_allocate (held : Held region s blocks) (request : Nat) :
    (Heap.tryAllocate request).Ensures s.heap (¬ s.heap.usage.HasRoom s.heap.overflow)
      fun place heap => (∃ blocks', Held region
        { heap, grants := (place.map (Grant.fresh · request)).toList ++ s.grants } blocks') ∧
          Client.Yields place.isSome false s.heap heap := by
  refine (Heap.tryAllocate_ensures held.laid request).mono (mt Usage.HasRoom.canAllocate) ?_
  intro place heap allocation
  cases allocation with
  | refused nowhere => exact ⟨⟨blocks, held⟩, .refl _⟩
  | @granted pre post b _ parts free fits first allocated =>
    subst parts
    exact ⟨⟨_, held.granted allocated free fits⟩, allocated.overflow,
      Usage.booked_of_allocate allocated.counted⟩

/-- A release strikes the block from the ledger if there is one. -/
theorem held_release (held : Held region s blocks) (address : Nat) :
    (Heap.release address).Ensures s.heap (¬ s.heap.usage.HasRoom s.heap.overflow)
      fun _ heap => (∃ blocks', Held region
        { heap, grants := s.grants.filter fun g => g.address != address } blocks') ∧
          Client.Yields false (decide (address ∈ s.grants.map Grant.address)) s.heap heap := by
  refine (Heap.release_ensures held.laid address).mono (mt Usage.HasRoom.canFree) ?_
  intro _ heap returned
  cases returned with
  | ignored foreign =>
    have unlisted : address ∉ s.grants.map Grant.address := by
      intro listed
      obtain ⟨e, member, place⟩ := held.backed.mem_addresses.1 listed
      exact foreign e member place
    rw [held.backed.filter_eq_self foreign, decide_eq_false unlisted]
    exact ⟨⟨blocks, held⟩, .refl _⟩
  | @took pre post b _ parts live place released =>
    subst parts place
    have listed : b.toEntry ∈ roster true (pre ++ b :: post) :=
      mem_roster.2 ⟨b, List.mem_append_right _ List.mem_cons_self, live, rfl⟩
    rw [decide_eq_true (held.backed.mem_addresses.2 ⟨_, listed, rfl⟩)]
    exact ⟨⟨_, held.released released live⟩, released.overflow,
      (released.returned held.laid live).booked⟩

/-- A write of the client changes what its ledger says and nothing else. -/
theorem held_write (held : Held region s blocks) {address distance : Nat} {data : List UInt8}
    (owned : s.WritesOwn (.write address distance data)) :
    Held region
      { heap := HasRegion.modifyRegion s.heap fun region => region.writeAt (address + distance) data
        grants := s.grants.map fun g =>
          if g.address = address then g.store distance data else g } blocks := by
  obtain ⟨laid, backed, base, size⟩ := held
  obtain ⟨e, member, agrees⟩ := backed.agreesOff_write owned
  obtain ⟨b, inside, _, rfl⟩ := mem_roster.1 member
  refine ⟨laid.of_agreesOff agrees ?_, ?_, ?_, ?_⟩
  · rintro c listed i low high ⟨above, below⟩
    exact laid.tiles.not_mem_headers inside above below
      ⟨c.toEntry, List.mem_map_of_mem listed, low, high⟩
  · exact backed.store (laid.spread true) (Nat.le_refl _) owned
  · exact agrees.sameBase.trans base
  · exact agrees.sameSize.trans size

/-- Every move keeps the heap laid out and the ledger backed, and only a counter without room can
stop it. -/
theorem held_perform (held : Held region s blocks) {move : Move} (legal : s.WritesOwn move) :
    (Client.perform move).Ensures s (¬ s.heap.usage.HasRoom s.heap.overflow) fun result s' =>
      (∃ blocks', Held region s' blocks') ∧ Client.Entered ⟨s, move, result⟩ s' := by
  cases move with
  | allocate request =>
    exact Client.ensures_keep_entered rfl rfl rfl
      (Client.ensures_allocate (held_allocate held request))
  | tryAllocate request =>
    exact Client.ensures_keep_entered rfl rfl rfl (held_allocate held request)
  | release address =>
    have nodup := held.backed.nodup (held.laid.spread true)
    exact Client.ensures_giveBack_entered rfl rfl rfl nodup (held_release held address)
  | write address distance data =>
    exact Client.ensures_write_entered rfl rfl ⟨blocks, held_write held legal⟩ ⟨rfl, .refl _ _⟩

/-- A held heap is in order. -/
theorem Held.kept (held : Held region s blocks) :
    Client.Kept s (roster false blocks) (roster true blocks) := by
  have limit : s.heap.region.size < 0x8000000000000000 := s.heap.region.sizeLt
  have few := held.backed.length_le (held.laid.spread true)
  have shown := held.laid.entries_eq
  exact ⟨⟨shown .free, shown .used⟩, held.laid.counted, held.laid.statistics_eq, held.laid.isSound,
    by omega, fun move legal => (held_perform held legal).mono id fun _ _ _ => trivial⟩

/-- **Every run is in order.** -/
theorem runs_in_order (created : Heap.create region overflow = .ok h) : Client.RunsInOrder h := by
  intro steps s runs
  obtain ⟨_, n, fresh⟩ := Heap.usage_of_create created
  obtain ⟨⟨blocks, held⟩, books⟩ := runs.books (I := fun t => ∃ blocks, Held region t blocks) fresh
    (held_start created) fun t move ⟨blocks, held⟩ legal =>
      (held_perform held legal).mono (fun _ => trivial) fun _ _ => id
  exact ⟨⟨_, _, held.kept⟩, books⟩

/-- The clients that runs on a new heap lead to. They write only where they may, and release what
they like. -/
def Reached (h : Heap) (s : Client Heap) : Prop :=
  Call.Reachable Client.perform Client.WritesOwn (Client.start h) s

/-- A client that is reached holds its heap. -/
theorem held_reached (created : Heap.create region overflow = .ok h) (reached : Reached h s) :
    ∃ blocks, Held region s blocks := by
  refine Call.Reachable.invariant (I := fun t => ∃ blocks, Held region t blocks) reached
    (held_start created) ?_
  rintro t move ⟨blocks, held⟩ legal
  exact (held_perform held legal).mono (fun _ => trivial) fun _ _ => And.left

/-! ## What holds at every point of a run -/

/-- A client's heap in a region, as its two chains show it. -/
structure Represented (region : Region) (s : Client Heap) (free used : List Entry) : Prop where
  freeChain : s.heap.entries .free = .ok free
  usedChain : s.heap.entries .used = .ok used
  freeAscending : free.Pairwise fun e f => e.offset < f.offset
  usedAscending : used.Pairwise fun e f => e.offset < f.offset
  apart : ∀ e ∈ free, ∀ f ∈ used, e.offset ≠ f.offset
  inside : ∀ e ∈ free ++ used, e.offset + (16 + e.size) ≤ region.size
  covered : ∀ i < region.size,
    ∃! e, e ∈ free ++ used ∧ e.offset ≤ i ∧ i < e.offset + (16 + e.size)
  positive : ∀ e ∈ free ++ used, 1 ≤ e.size
  settled : ∀ e ∈ free, ∀ f ∈ free, e.offset + (16 + e.size) ≠ f.offset
  granted : (s.grants.map Grant.address).Perm
    (used.map fun e => region.base + (e.offset + 16))
  counted : s.heap.usage.free = (free.map Entry.size).sum
  sound : s.heap.isSound = .ok true

/-- **The two chains describe the heap at every point of a run.** Both are finite and ascending;
their blocks, no one on both, partition the region, none is empty, and no two free ones touch. The
used chain has the blocks that the client holds, the free chain as many bytes as count as free, and
the audit finds nothing wrong. -/
theorem chains_represent_heap (created : Heap.create region overflow = .ok h) (reached : Reached h s) :
    ∃ free used, Represented region s free used := by
  obtain ⟨blocks, laid, backed, base, size⟩ := held_reached created reached
  have tiles : Tiles 16 0 blocks region.size := size ▸ laid.tiles
  refine ⟨roster false blocks, roster true blocks, laid.entries_eq .free, laid.entries_eq .used,
    (laid.spread false).ascending, (laid.spread true).ascending, ?_, ?_, ?_, ?_, ?_,
    base ▸ backed.matched, laid.counted, laid.isSound⟩
  · intro e left f right
    have := headersApart_of_tiles tiles false e left f right
    omega
  · intro e member
    exact tiles.spread.inside e (mem_rosters.1 member)
  · intro i below
    simpa only [mem_rosters] using tiles.covered (Nat.zero_le i) below
  · intro e member
    obtain ⟨b, inside, rfl⟩ := List.mem_map.1 (mem_rosters.1 member)
    exact laid.positive b inside
  · intro e left f right
    exact laid.settled.apart tiles left right

/-- Sixty-four bytes at an odd address. -/
def smallRegion : Region where
  base := 4099
  bytes := ⟨Array.replicate 64 0⟩
  basePos := by decide
  sizeLt := by decide
  endLe := by decide

/-- A heap in a region with these words written to it, of which nobody has used anything yet. -/
def written (region : Region) (words : List (Nat × Nat)) (freeHead usedHead : Option Nat)
    (free : Nat) : Heap where
  region := words.foldl (fun r word => r.writeWord word.1 word.2) region
  freeHead := freeHead
  usedHead := usedHead
  usage := Usage.start free
  overflow := .trap

/-- Two blocks are taken and written to, the first one is released, and then addresses of no live
block are. -/
def smallRun : List Move :=
  [.allocate 5, .write 4115 1 [7, 8], .allocate 3, .write 4136 0 [9], .release 4115, .release 4115,
    .release 1, .tryAllocate 100]

/-- The run ends with one grant, after two allocations and one release in six calls. -/
theorem runs_smallRun : ∃ h s, ∃ steps : List (Client.Step Heap Move),
    Heap.create smallRegion .trap = .ok h ∧ Client.Runs h steps s ∧
      s.grants.map (fun g => (g.address, g.length, g.stored 0)) = [(4136, 3, some 9)] ∧
      (steps.countP Client.Step.gave, steps.countP Client.Step.took,
        steps.countP Client.Step.isCall) = (2, 1, 6) := by
  obtain ⟨h, created, goes, granted, counted⟩ : ∃ h, Heap.create smallRegion .trap = .ok h ∧
      Call.Goes Client.perform Client.WritesOwn (Client.start h) smallRun ∧
      (Call.after Client.perform (Client.start h) smallRun).grants.map
        (fun g => (g.address, g.length, g.stored 0)) = [(4136, 3, some 9)] ∧
      ((Client.trace [] (Client.start h) smallRun).countP Client.Step.gave,
        (Client.trace [] (Client.start h) smallRun).countP Client.Step.took,
        (Client.trace [] (Client.start h) smallRun).countP Client.Step.isCall) = (2, 1, 6) :=
    ⟨_, rfl, by decide +kernel⟩
  exact ⟨h, _, _, created, Client.Runs.start.of_goes goes, granted, counted⟩

/-- The run leads to a client with this grant. -/
theorem reached_smallRun : ∃ h s, Heap.create smallRegion .trap = .ok h ∧ Reached h s ∧
    s.grants.map (fun g => (g.address, g.length, g.stored 0)) = [(4136, 3, some 9)] := by
  obtain ⟨h, s, steps, created, runs, granted, _⟩ := runs_smallRun
  exact ⟨h, s, created, runs.reachable, granted⟩

/-- The heap at the end of that run is described by its chains. -/
theorem chains_represent_heap_smallRun : ∃ h s free used, Heap.create smallRegion .trap = .ok h ∧
    s.grants.map (fun g => (g.address, g.length, g.stored 0)) = [(4136, 3, some 9)] ∧
    Represented smallRegion s free used := by
  obtain ⟨h, s, created, reached, granted⟩ := reached_smallRun
  obtain ⟨free, used, represented⟩ := chains_represent_heap created reached
  exact ⟨h, s, free, used, created, granted, represented⟩

/-- **A client's memory is safe at every point of a run.** In a region with room for one header and
one byte a heap can be laid out. Whatever addresses are released then, the client's memory lies in
the region, one part apart from the other and apart from every header, and what was stored in it is
still there. -/
theorem chained_memory_safe (overflow : Overflow) (large : 17 ≤ region.size) :
    ∃ h, Heap.create region overflow = .ok h ∧ ∀ s, Reached h s →
      ∃ free used, s.heap.entries .free = .ok free ∧ s.heap.entries .used = .ok used ∧
        SafeMemory region.base (region.base + region.size) (free ++ used) s.heap.region s.grants := by
  obtain ⟨h, created, _⟩ := Heap.laid_create overflow large
  refine ⟨h, created, fun s reached => ?_⟩
  obtain ⟨blocks, laid, backed, base, size⟩ := held_reached created reached
  refine ⟨roster false blocks, roster true blocks, laid.entries_eq .free, laid.entries_eq .used, ?_⟩
  obtain ⟨inside, apart, offHeaders, kept⟩ := backed.safe laid.tiles (Nat.le_refl 16)
  refine ⟨fun g member => ?_, apart, fun g member e listed => ?_, kept⟩
  · have := inside g member
    omega
  · exact offHeaders g member e (mem_rosters.1 listed)

/-- The memory at the end of that run is safe. -/
theorem chained_memory_safe_smallRun : ∃ s : Client Heap,
    s.grants.map (fun g => (g.address, g.length, g.stored 0)) = [(4136, 3, some 9)] ∧
    ∃ free used, s.heap.entries .free = .ok free ∧ s.heap.entries .used = .ok used ∧
      SafeMemory 4099 (4099 + 64) (free ++ used) s.heap.region s.grants := by
  obtain ⟨h, s, created, reached, granted⟩ := reached_smallRun
  obtain ⟨h', created', safe⟩ := chained_memory_safe .trap (show 17 ≤ smallRegion.size by decide)
  obtain rfl := Except.ok.inj (created.symm.trans created')
  exact ⟨s, granted, safe s reached⟩

end RegionAlloc.TwoList
