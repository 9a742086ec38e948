import RegionAlloc.Proofs.Accounts
import RegionAlloc.Proofs.Backed
import RegionAlloc.Proofs.Tagged.Allocation
import RegionAlloc.Proofs.Tagged.Release

/-!
# Runs of a tagged heap

A client of a tagged heap allocates, also arrays of zeros, gives back what it was given, writes into
it, registers failure hooks and starts the low-water mark again. Each move keeps the heap laid out and
the ledger backed by its live blocks, and enters the books (`held_perform`). So every run is in order
(`runs_in_order`), and at every point of it the heap is as its headers say and the client's memory is
safe.
-/

namespace RegionAlloc.Tagged

open Block Region

variable {region : Region} {settings : Settings} {overflow : Overflow} {h h' h'' : Heap}
  {s : Client Heap} {blocks : List Block}

/-- What a client of a tagged heap can do. -/
inductive Move where
  /-- What a client of any heap can do. -/
  | basic (move : RegionAlloc.Move)
  | allocateZeroed (count size : Nat)
  | onFailure (hook : Hook)
  | resetLowWater

/-- Makes a move. The result is the address that an allocation gave. -/
def perform : Move → Call (Client Heap) (Option Nat)
  | .basic move => Client.perform move
  | .allocateZeroed count size =>
    Client.keep (Heap.allocateZeroed count size) (Grant.zeroed · (count * size))
  | .onFailure hook => do
    let _ ← Client.onHeap (Heap.onFailure hook)
    return none
  | .resetLowWater => do
    Client.onHeap Heap.resetLowWater
    return none

/-- The client writes only into what it was given, and gives back only that or the null address. -/
def Legal (s : Client Heap) : Move → Prop
  | .basic move => s.WritesOwn move ∧ s.ReleasesOwn move
  | _ => True

instance (s : Client Heap) : ∀ move : Move, Decidable (Legal s move)
  | .basic _ => inferInstanceAs (Decidable (_ ∧ _))
  | .allocateZeroed _ _ => inferInstanceAs (Decidable True)
  | .onFailure _ => inferInstanceAs (Decidable True)
  | .resetLowWater => inferInstanceAs (Decidable True)

instance : ClientMove Move where
  released?
    | .basic move => ClientMove.released? move
    | _ => none
  isCall
    | .basic move => ClientMove.isCall move
    | _ => true
  resets
    | .resetLowWater => true
    | _ => false

instance : Managed Heap Move where
  perform := perform
  Legal := Legal
  usage h := h.usage
  overflow h := h.overflow
  statistics := Heap.statistics
  isSound := Heap.isSound
  Displays h free live := ∃ blocks, h.Shows h.start blocks ∧ free = roster false blocks ∧
    live = roster true blocks ∧ h.freeBlocks = .ok free

/-! ## What moves keep -/

/-- The second heap has the place and the settings of the first one. -/
structure SamePlace (h h' : Heap) : Prop where
  settings : h'.settings = h.settings
  start : h'.start = h.start
  endMarker : h'.endMarker = h.endMarker
  base : h'.region.base = h.region.base

/-- A heap that is set up alike at the same address is in the same place. -/
theorem SamePlace.of_alike (same : SamePlace h h') (alike : Heap.Alike h' h'')
    (base : h''.region.base = h'.region.base) : SamePlace h h'' where
  settings := alike.settings.trans same.settings
  start := alike.start.trans same.start
  endMarker := alike.endMarker.trans same.endMarker
  base := base.trans same.base

/-- In one place headers have one size. -/
theorem SamePlace.headerSize_eq (same : SamePlace h h') : h'.headerSize = h.headerSize :=
  congrArg Settings.headerSize same.settings

/-- In one place blocks can lie at the same offsets. -/
theorem SamePlace.isPlace (same : SamePlace h h') {o : Nat} (place : h.IsPlace o) : h'.IsPlace o := by
  unfold Heap.IsPlace at place ⊢
  rwa [same.start, same.endMarker, same.settings]

/-- To be in one place is transitive. -/
theorem SamePlace.trans (first : SamePlace h h') (second : SamePlace h' h'') : SamePlace h h'' where
  settings := second.settings.trans first.settings
  start := second.start.trans first.start
  endMarker := second.endMarker.trans first.endMarker
  base := second.base.trans first.base

/-- The heap of a client is laid out as these blocks in the place of `h`, and the live ones back the
client's ledger. -/
structure Held (h : Heap) (s : Client Heap) (blocks : List Block) : Prop where
  laid : s.heap.Laid blocks
  backed : Backed s.heap.headerSize 0 s.heap.region (roster true blocks) s.grants
  same : SamePlace h s.heap

/-- The headers of a client's heap show its blocks. -/
theorem Held.shows (held : Held h s blocks) : s.heap.Shows h.start blocks := by
  have shown := held.laid.shows
  rwa [held.same.start] at shown

private theorem held_start (created : Heap.create region settings overflow = .ok h) :
    ∃ blocks, Held h (Client.start h) blocks := by
  obtain ⟨size, laid, _⟩ := Heap.laid_create created
  exact ⟨_, laid, Backed.nil _ 0 _, rfl, rfl, rfl, rfl⟩

/-- A block that is handed out extends the ledger. -/
theorem Held.granted {padded request : Nat} {pre post : List Block} {b : Block}
    (held : Held h s (pre ++ b :: post)) (allocated : Heap.Allocated s.heap h' padded pre b post)
    (free : b.live = false) (padding : s.heap.settings.paddedSize? request = some padded)
    (fits : padded ≤ b.size) :
    Held h
      { heap := h'
        grants := Grant.fresh (s.heap.region.base + (b.offset + s.heap.headerSize)) request ::
          s.grants } (pre ++ (carve 0 s.heap.splitLimit padded b ++ post)) := by
  obtain ⟨laid, backed, same⟩ := held
  obtain ⟨_, covers, _⟩ := Settings.paddedSize?_eq_some laid.formed.valid padding
  have agrees := allocated.region
  refine ⟨allocated.laid, ?_, same.of_alike allocated.alike agrees.sameBase⟩
  rw [allocated.alike.headerSize_eq]
  refine backed.carved free s.heap.settings.sixteen_le_headerSize allocated.laid.tiles agrees fits ?_
  unfold Heap.headerSize
  omega

/-- A block that is taken back is struck off the ledger. -/
theorem Held.released {pre post : List Block} {b : Block} (held : Held h s (pre ++ b :: post))
    (released : Heap.Released s.heap h' pre b post) (live : b.live = true) :
    Held h
      { heap := h'
        grants := s.grants.filter fun g =>
          g.address != s.heap.region.base + (b.offset + s.heap.headerSize) }
      (coalesce 0 (pre ++ b.freed :: post)) := by
  obtain ⟨laid, backed, same⟩ := held
  have agrees := released.region
  refine ⟨released.laid, ?_, same.of_alike released.alike agrees.sameBase⟩
  rw [released.alike.headerSize_eq]
  refine backed.freed live s.heap.settings.sixteen_le_headerSize laid.tiles (agrees.mono ?_)
  exact Set.union_subset_union_right _ fun i inside => ⟨inside.1, by have := inside.2; omega⟩

/-- An allocation extends the ledger by the block that it takes, if it takes one. -/
theorem held_allocate (held : Held h s blocks) (request : Nat) :
    (Heap.tryAllocate request).Ensures s.heap (¬ s.heap.usage.HasRoom s.heap.overflow)
      fun place heap => (∃ blocks', Held h
        { heap, grants := (place.map (Grant.fresh · request)).toList ++ s.grants } blocks') ∧
          Client.Yields place.isSome false s.heap heap := by
  refine (Heap.tryAllocate_ensures held.laid request).mono (mt Usage.HasRoom.canAllocate) ?_
  intro place heap allocation
  cases allocation with
  | refused nowhere => exact ⟨⟨blocks, held⟩, .refl _⟩
  | @granted pre post b padded _ parts free padding fits first allocated =>
    subst parts
    exact ⟨⟨_, held.granted allocated free padding fits⟩, allocated.alike.overflow,
      Usage.booked_of_allocate allocated.counted⟩

/-- What the client may release is the null address or a live block. -/
theorem Held.owned (held : Held h s blocks) {address : Nat}
    (owned : address = 0 ∨ ∃ g ∈ s.grants, g.address = address) :
    address = 0 ∨ ∃ e ∈ roster true blocks,
      address = s.heap.region.base + (e.offset + s.heap.headerSize) := by
  refine owned.imp_right ?_
  rintro ⟨g, member, rfl⟩
  obtain ⟨e, listed, place, _⟩ := held.backed.fits g member
  exact ⟨e, listed, place⟩

/-- A release strikes the block from the ledger. -/
theorem held_release (held : Held h s blocks) {address : Nat}
    (owned : address = 0 ∨ ∃ g ∈ s.grants, g.address = address) :
    (Heap.release address).Ensures s.heap (¬ s.heap.usage.HasRoom s.heap.overflow)
      fun _ heap => (∃ blocks', Held h
        { heap, grants := s.grants.filter fun g => g.address != address } blocks') ∧
          Client.Yields false (decide (address ∈ s.grants.map Grant.address)) s.heap heap := by
  refine (Heap.release_ensures held.laid (held.owned owned)).mono (mt Usage.HasRoom.canFree) ?_
  intro _ heap returned
  cases returned with
  | ignored foreign =>
    have unlisted : address ∉ s.grants.map Grant.address := by
      intro listed
      obtain ⟨e, member, place⟩ := held.backed.mem_addresses.1 listed
      exact foreign e member place
    rw [held.backed.filter_eq_self foreign, decide_eq_false unlisted]
    exact ⟨⟨blocks, held⟩, .refl _⟩
  | @took pre post b _ parts live place released =>
    subst parts place
    have listed : b.toEntry ∈ roster true (pre ++ b :: post) :=
      mem_roster.2 ⟨b, List.mem_append_right _ List.mem_cons_self, live, rfl⟩
    rw [decide_eq_true (held.backed.mem_addresses.2 ⟨_, listed, rfl⟩)]
    exact ⟨⟨_, held.released released live⟩, released.alike.overflow,
      (released.returned held.laid).booked⟩

/-- A write of the client changes what its ledger says and nothing else. -/
theorem held_write (held : Held h s blocks) {address distance : Nat} {data : List UInt8}
    (owned : s.WritesOwn (.write address distance data)) :
    Held h
      { heap := HasRegion.modifyRegion s.heap fun region => region.writeAt (address + distance) data
        grants := s.grants.map fun g =>
          if g.address = address then g.store distance data else g } blocks := by
  obtain ⟨laid, backed, same⟩ := held
  obtain ⟨e, member, agrees⟩ := backed.agreesOff_write owned
  obtain ⟨b, inside, _, rfl⟩ := mem_roster.1 member
  have alike : Heap.Alike s.heap
      (HasRegion.modifyRegion s.heap fun region => region.writeAt (address + distance) data) :=
    ⟨rfl, rfl, rfl, rfl, rfl⟩
  refine ⟨laid.of_payload inside ⟨alike, agrees.mono ?_, rfl⟩ rfl, ?_, same.of_alike alike agrees.sameBase⟩
  · rintro i ⟨low, high⟩
    exact ⟨low, by omega⟩
  · have room := laid.inside
    exact backed.store (laid.spread true) (by omega) owned

/-- The memory granted last is overwritten with zeros. -/
theorem held_zeroed {address length : Nat}
    (held : Held h { s with grants := Grant.fresh address length :: s.grants } blocks) :
    Held h
      { heap := HasRegion.modifyRegion s.heap fun region =>
          region.writeAt address (List.replicate length 0)
        grants := Grant.zeroed address length :: s.grants } blocks := by
  have own : Client.WritesOwn { s with grants := Grant.fresh address length :: s.grants }
      (.write address 0 (List.replicate length 0)) :=
    ⟨_, List.mem_cons_self, rfl, by rw [List.length_replicate, Nat.zero_add]; exact Nat.le_refl _⟩
  have ledger : (Grant.fresh address length :: s.grants).map (fun g =>
      if g.address = address then g.store 0 (List.replicate length 0) else g)
      = Grant.zeroed address length :: s.grants := by
    rw [← Grant.store_fresh]
    exact Grant.map_store_cons (held.backed.nodup (held.laid.spread true))
  rw [← ledger]
  exact held_write held own

/-- An allocation of zeros is one of as many bytes, which are then overwritten. -/
theorem held_allocateZeroed (held : Held h s blocks) (count size : Nat) :
    (Heap.allocateZeroed count size).Ensures s.heap (¬ s.heap.usage.HasRoom s.heap.overflow)
      fun place heap => (∃ blocks', Held h
        { heap, grants := (place.map (Grant.zeroed · (count * size))).toList ++ s.grants } blocks') ∧
          Client.Yields place.isSome false s.heap heap := by
  refine Client.ensures_zeroedBy ⟨⟨blocks, held⟩, .refl _⟩
    (Client.ensures_allocate (held_allocate held (count * size))) (fun _ => id) ?_
  rintro address heap ⟨⟨blocks', held'⟩, yields⟩
  exact ⟨⟨blocks', held_zeroed (s := { s with heap }) held'⟩, yields.overflow, yields.booked⟩

/-- Only a hook is registered, or a counter changes that does not count free bytes. -/
theorem Held.recount (held : Held h s blocks) {usage : Usage} (hook : Option Hook)
    (free : usage.free = s.heap.usage.free) :
    Held h { s with heap := { s.heap with usage, hook } } blocks :=
  ⟨held.laid.recount hook free, held.backed, held.same.settings, held.same.start,
    held.same.endMarker, held.same.base⟩

/-- Every move keeps the heap laid out and the ledger backed, and only a counter without room can
stop it. -/
theorem held_perform (held : Held h s blocks) {move : Move} (legal : Legal s move) :
    (perform move).Ensures s (¬ s.heap.usage.HasRoom s.heap.overflow) fun result s' =>
      (∃ blocks', Held h s' blocks') ∧ Client.Entered ⟨s, move, result⟩ s' := by
  cases move with
  | basic move =>
    obtain ⟨writes, releases⟩ := legal
    cases move with
    | allocate request =>
      exact Client.ensures_keep_entered rfl rfl rfl
        (Client.ensures_allocate (held_allocate held request))
    | tryAllocate request =>
      exact Client.ensures_keep_entered rfl rfl rfl (held_allocate held request)
    | release address =>
      have nodup := held.backed.nodup (held.laid.spread true)
      exact Client.ensures_giveBack_entered rfl rfl rfl nodup (held_release held releases)
    | write address distance data =>
      exact Client.ensures_write_entered rfl rfl ⟨blocks, held_write held writes⟩ ⟨rfl, .refl _ _⟩
  | allocateZeroed count size =>
    exact Client.ensures_keep_entered rfl rfl rfl (held_allocateZeroed held count size)
  | onFailure hook =>
    exact Call.Ensures.of_run rfl
      ⟨⟨blocks, held.recount (some hook) rfl⟩, rfl, .refl _ _, rfl, Nat.zero_le _⟩
  | resetLowWater =>
    exact Call.Ensures.of_run rfl
      ⟨⟨blocks, held.recount s.heap.hook rfl⟩, rfl, .reset _ _, rfl, Nat.zero_le _⟩

/-- A held heap is in order. -/
theorem Held.kept (held : Held h s blocks) :
    Client.Kept s (roster false blocks) (roster true blocks) := by
  have limit : s.heap.region.size < 0x8000000000000000 := s.heap.region.sizeLt
  have inside := held.laid.inside
  have few := held.backed.length_le (held.laid.spread true)
  exact ⟨⟨blocks, held.laid.shows, rfl, rfl, held.laid.freeBlocks_eq⟩, held.laid.counted,
    held.laid.statistics_eq, held.laid.isSound, by omega,
    fun move legal => (held_perform held legal).mono id fun _ _ _ => trivial⟩

/-- **Every run is in order.** -/
theorem runs_in_order (created : Heap.create region settings overflow = .ok h) :
    Client.RunsInOrder h := by
  intro steps s runs
  obtain ⟨n, fresh⟩ := Heap.usage_of_create created
  obtain ⟨⟨blocks, held⟩, books⟩ := runs.books (I := fun t => ∃ blocks, Held h t blocks) fresh
    (held_start created) fun t move ⟨blocks, held⟩ legal =>
      (held_perform held legal).mono (fun _ => trivial) fun _ _ => id
  exact ⟨⟨_, _, held.kept⟩, books⟩

/-- The clients that runs on a new heap lead to. They write and give back only what is theirs. -/
def Reached (h : Heap) (s : Client Heap) : Prop :=
  Call.Reachable perform Legal (Client.start h) s

/-- A client that is reached holds its heap. -/
theorem held_reached (created : Heap.create region settings overflow = .ok h) (reached : Reached h s) :
    ∃ blocks, Held h s blocks := by
  refine Call.Reachable.invariant (I := fun t => ∃ blocks, Held h t blocks) reached
    (held_start created) ?_
  rintro t move ⟨blocks, held⟩ legal
  exact (held_perform held legal).mono (fun _ => trivial) fun _ _ => And.left

/-! ## What holds at every point of a run -/

/-- A client's heap, in the place of the heap `h` that it began with, as its headers show it. The
blocks are found one behind the other; the free ones are those on the free list, and the live ones
those that the client holds. -/
structure Represented (h : Heap) (s : Client Heap) (blocks : List Block) : Prop where
  shown : s.heap.Shows h.start blocks
  endMarker : s.heap.endMarker = h.endMarker
  sizes : ∀ b ∈ blocks, h.settings.alignment ∣ b.size ∧
    h.headerSize + h.settings.alignment ≤ b.size
  settled : blocks.IsChain fun b c => b.live = true ∨ c.live = true
  listed : s.heap.Lists .head (roster false blocks)
  ascending : (roster false blocks).Pairwise fun e f => e.offset < f.offset
  marked : s.heap.blockSize h.endMarker = .ok 0 ∧ s.heap.blockTag h.endMarker = .ok .free ∧
    s.heap.next? (.block h.endMarker) = .ok none
  unlinked : ∀ b ∈ blocks, b.live = true → s.heap.next? (.block b.offset) = .ok none
  granted : (s.grants.map Grant.address).Perm
    ((roster true blocks).map fun e => h.region.base + (e.offset + h.headerSize))
  counted : s.heap.usage.free = ((roster false blocks).map Entry.size).sum
  total : s.heap.usage.free + ((roster true blocks).map Entry.size).sum = h.endMarker - h.start
  sound : s.heap.isSound = .ok true

/-- **The tags describe the heap at every point of a run.** Going from block to block one finds that
they tile the heap, each a multiple of the alignment with room for more than a header, and that no two
free ones follow one another. The free list leads in ascending order through just the free blocks to
the end marker. The live blocks have no link, and are just those that the client holds. As many bytes
count as free as the free blocks have, and the audit finds nothing wrong. -/
theorem tags_represent_heap (created : Heap.create region settings overflow = .ok h)
    (reached : Reached h s) : ∃ blocks, Represented h s blocks := by
  obtain ⟨blocks, laid, backed, same⟩ := held_reached created reached
  have header : s.heap.headerSize = h.headerSize := congrArg Settings.headerSize same.settings
  have shown := laid.shows
  have sizes := laid.sizes
  have marked := laid.endMarker_eq
  have granted := backed.matched
  rw [same.start] at shown
  rw [header, same.settings] at sizes
  rw [same.endMarker] at marked
  rw [header, same.base] at granted
  refine ⟨blocks, shown, same.endMarker, sizes, laid.settled, laid.lists,
    (laid.spread false).ascending, marked, fun b => laid.next?_eq, granted, laid.counted, ?_,
    laid.isSound⟩
  have sum := laid.tiles.sum_eq
  rw [same.start, same.endMarker] at sum
  have counted := laid.counted
  unfold freeBytes at counted
  omega

/-- A hundred and seventy-six bytes at an odd address. -/
def oddRegion : Region where
  base := 4097
  bytes := ⟨Array.replicate 176 0⟩
  basePos := by decide
  sizeLt := by decide +kernel
  endLe := by decide +kernel

def clearing : Settings where
  alignment := 16
  clearOnFree := true

/-- Three blocks are taken, one of them full of zeros, and the outer two are released. Between that an
allocation fails, and afterwards the first block is taken again. -/
def mixedRun : List Move :=
  [.basic (.allocate 5), .allocateZeroed 2 9, .basic (.allocate 20), .basic (.write 4160 0 [5]),
    .basic (.release 4128), .onFailure 3, .basic (.allocate 1000), .resetLowWater,
    .basic (.release 4208), .basic (.release 0), .basic (.tryAllocate 1)]

set_option maxRecDepth 4000 in
/-- The run ends with two grants, after four allocations and two releases in ten calls. -/
theorem runs_mixedRun : ∃ h s, ∃ steps : List (Client.Step Heap Move),
    Heap.create oddRegion clearing .trap = .ok h ∧ Client.Runs h steps s ∧
      s.grants.map (fun g => (g.address, g.length, g.stored 0))
        = [(4128, 1, none), (4160, 18, some 5)] ∧
      (steps.countP Client.Step.gave, steps.countP Client.Step.took,
        steps.countP Client.Step.isCall) = (4, 2, 10) := by
  obtain ⟨h, created, goes, granted, counted⟩ : ∃ h, Heap.create oddRegion clearing .trap = .ok h ∧
      Call.Goes perform Legal (Client.start h) mixedRun ∧
      (Call.after perform (Client.start h) mixedRun).grants.map
        (fun g => (g.address, g.length, g.stored 0)) = [(4128, 1, none), (4160, 18, some 5)] ∧
      ((Client.trace [] (Client.start h) mixedRun).countP Client.Step.gave,
        (Client.trace [] (Client.start h) mixedRun).countP Client.Step.took,
        (Client.trace [] (Client.start h) mixedRun).countP Client.Step.isCall) = (4, 2, 10) :=
    ⟨_, rfl, by decide +kernel⟩
  exact ⟨h, _, _, created, Client.Runs.start.of_goes goes, granted, counted⟩

/-- The run leads to a client with these two grants. -/
theorem reached_mixedRun : ∃ h s, Heap.create oddRegion clearing .trap = .ok h ∧ Reached h s ∧
    s.grants.map (fun g => (g.address, g.length, g.stored 0))
      = [(4128, 1, none), (4160, 18, some 5)] := by
  obtain ⟨h, s, steps, created, runs, granted, _⟩ := runs_mixedRun
  exact ⟨h, s, created, runs.reachable, granted⟩

/-- The heap at the end of that run is described by its tags. -/
theorem tags_represent_heap_mixedRun : ∃ h s blocks,
    Heap.create oddRegion clearing .trap = .ok h ∧
    s.grants.map (fun g => (g.address, g.length, g.stored 0))
      = [(4128, 1, none), (4160, 18, some 5)] ∧
    Represented h s blocks := by
  obtain ⟨h, s, created, reached, granted⟩ := reached_mixedRun
  obtain ⟨blocks, represented⟩ := tags_represent_heap created reached
  exact ⟨h, s, blocks, created, granted, represented⟩

/-- **A client's memory is safe at every point of a run.** It lies behind the first header and in
front of the end marker, one part apart from the other and apart from every header, each part is
aligned, and what was stored in it is still there. -/
theorem tagged_memory_safe (created : Heap.create region settings overflow = .ok h)
    (reached : Reached h s) :
    ∃ blocks, s.heap.Shows h.start blocks ∧ s.heap.endMarker = h.endMarker ∧
      SafeMemory (region.base + (h.start + h.headerSize)) (region.base + h.endMarker)
        (blocks.map toEntry ++ [h.marker]) s.heap.region s.grants ∧
      ∀ g ∈ s.grants, settings.alignment ∣ g.address := by
  obtain ⟨blocks, laid, backed, same⟩ := held_reached created reached
  obtain ⟨_, _, base, _, set⟩ := Heap.laid_create created
  have header : s.heap.headerSize = h.headerSize := congrArg Settings.headerSize same.settings
  have place : s.heap.region.base = region.base := same.base.trans base
  have shown := laid.shows
  obtain ⟨inside, apart, offHeaders, kept⟩ :=
    backed.safe laid.tiles s.heap.settings.sixteen_le_headerSize
  rw [same.start] at shown
  rw [place, header, same.start, same.endMarker] at inside
  refine ⟨blocks, shown, same.endMarker, ⟨inside, apart, fun g member e listed => ?_, kept⟩, ?_⟩
  · rcases List.mem_append.1 listed with block | last
    · exact offHeaders g member e block
    · obtain rfl := List.mem_singleton.1 last
      have := (inside g member).2
      change _ ≤ s.heap.region.base + h.endMarker ∨ _
      omega
  · intro g member
    obtain ⟨e, listed, address, _⟩ := backed.fits g member
    obtain ⟨b, block, _, rfl⟩ := mem_roster.1 listed
    rw [address, ← set, ← same.settings]
    exact laid.dvd_address block

/-- The memory at the end of that run is safe. -/
theorem tagged_memory_safe_mixedRun : ∃ (h : Heap) (s : Client Heap) (blocks : List Block),
    Heap.create oddRegion clearing .trap = .ok h ∧
    s.grants.map (fun g => (g.address, g.length, g.stored 0))
      = [(4128, 1, none), (4160, 18, some 5)] ∧
    s.heap.Shows h.start blocks ∧
    SafeMemory (4097 + (h.start + h.headerSize)) (4097 + h.endMarker)
      (blocks.map toEntry ++ [h.marker]) s.heap.region s.grants ∧
    ∀ g ∈ s.grants, 16 ∣ g.address := by
  obtain ⟨h, s, created, reached, granted⟩ := reached_mixedRun
  obtain ⟨blocks, shown, _, safe, aligned⟩ := tagged_memory_safe created reached
  exact ⟨h, s, blocks, created, granted, shown, safe, aligned⟩

end RegionAlloc.Tagged
