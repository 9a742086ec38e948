import RegionAlloc.Proofs.Tagged.Runs
import RegionAlloc.Proofs.TwoList.Runs

/-!
# The order of releases does not matter

Releases in different orders merge different blocks at different moments. Yet in the end no two free
blocks touch, and then the live blocks determine the free ones (`Block.Tiles.eq_of_roster`). So what
is left depends only on which blocks were released.

`Picture` says of a kind of heap in one place how it is pictured as blocks, and what a release makes
of the picture. The rest follows for both kinds at once.
-/

namespace RegionAlloc

open Block

/-- Releases what is at these addresses, one after the other. -/
def releaseAll {σ : Type} [Allocator σ] : List Nat → Call σ Unit
  | [] => pure ()
  | address :: rest => do
    Allocator.release address
    releaseAll rest

section Outcomes

variable {σ μ : Type} [Allocator σ] [Managed σ μ]

/-- Two heaps with the same free blocks, the same live ones, and the same statistics. -/
def Indistinct (heap heap' : σ) : Prop :=
  ∃ free live stats, Managed.Displays heap free live ∧ Managed.Displays heap' free live ∧
    Managed.statistics heap = .ok stats ∧ Managed.statistics heap' = .ok stats

/-- A heap with all its bytes in one free block, the one that another heap has, and with as many
bytes available as that one. -/
def Restored (heap heap' : σ) : Prop :=
  ∃ block stats stats', Managed.Displays heap [block] [] ∧ Managed.Displays heap' [block] [] ∧
    Managed.statistics heap = .ok stats ∧ Managed.statistics heap' = .ok stats' ∧
    stats'.availableBytes = stats.availableBytes

/-- At every point of every run the order of releases does not matter: whichever part of its memory
the client releases, the heap it leaves behind is the same in any order, and if it releases all, that
heap is again as it was when it was new. -/
structure OrderFree (h : σ) : Prop where
  indistinct : ∀ s, Call.Reachable Managed.perform Managed.Legal (Client.start h) s →
    ∀ ps qs : List Nat, ps.Nodup → ps ⊆ s.grants.map Grant.address → ps.Perm qs →
      (releaseAll ps : Call σ Unit).Ensures s.heap False fun _ heap₁ =>
        (releaseAll qs : Call σ Unit).Ensures s.heap False fun _ heap₂ => Indistinct heap₁ heap₂
  restored : ∀ s, Call.Reachable Managed.perform Managed.Legal (Client.start h) s →
    ∀ ps : List Nat, ps.Perm (s.grants.map Grant.address) →
      (releaseAll ps : Call σ Unit).Ensures s.heap False fun _ heap => Restored h heap

end Outcomes

/-- Heaps in one place, pictured as blocks. -/
structure Picture (σ : Type) {μ : Type} [Allocator σ] [Managed σ μ] where
  Lies : σ → List Block → Prop
  /-- The bytes that a block takes up besides its size. -/
  gap : Nat
  /-- The bytes in front of the memory in a block. -/
  lead : Nat
  base : Nat
  start : Nat
  stop : Nat
  tiles : ∀ {heap blocks}, Lies heap blocks → Tiles gap start blocks stop
  settled : ∀ {heap blocks}, Lies heap blocks → Settled blocks
  counted : ∀ {heap blocks}, Lies heap blocks → (Managed.usage heap).free = freeBytes blocks
  displays : ∀ {heap blocks}, Lies heap blocks →
    Managed.Displays heap (roster false blocks) (roster true blocks)
  statistics : ∀ {heap blocks}, Lies heap blocks → Managed.statistics heap
    = .ok (.ofSurvey (.ofEntries (roster false blocks)) (Managed.usage heap))
  release : ∀ {heap : σ} {pre b post}, Lies heap (pre ++ b :: post) → b.live = true →
    (Allocator.release (base + (b.offset + lead)) : Call σ Unit).Ensures heap
      (¬ (Managed.usage heap).CanFree (Managed.overflow heap)) fun _ heap' =>
        Lies heap' (coalesce gap (pre ++ b.freed :: post)) ∧
        Managed.overflow heap' = Managed.overflow heap ∧
        Usage.Returned (Managed.overflow heap) (Managed.usage heap) (Managed.usage heap')

namespace Picture

variable {σ μ : Type} [Allocator σ] [Managed σ μ] {p : Picture σ} {heap heap' : σ}
  {blocks blocks' : List Block} {taken n : Nat}

/-- The address of the memory in a block. -/
def place (p : Picture σ) (e : Entry) : Nat :=
  p.base + (e.offset + p.lead)

/-- What a heap is like after the blocks at `addresses` were released. -/
structure Cleared (p : Picture σ) (heap heap' : σ) (blocks : List Block) (taken : Nat)
    (addresses : List Nat) (blocks' : List Block) : Prop where
  lies : p.Lies heap' blocks'
  live : roster true blocks' = (roster true blocks).filter fun e => p.place e ∉ addresses
  overflow : Managed.overflow heap' = Managed.overflow heap
  lowWater : (Managed.usage heap').lowWater = (Managed.usage heap).lowWater
  allocations : (Managed.usage heap').allocations = (Managed.usage heap).allocations
  frees : (Managed.overflow heap).Counts (taken + addresses.length) (Managed.usage heap').frees

/-- Only the released block leaves the roster. -/
theorem roster_released {pre post : List Block} {b : Block}
    (tiles : Tiles p.gap p.start (pre ++ b :: post) p.stop) (live : b.live = true) :
    roster true (coalesce p.gap (pre ++ b.freed :: post))
      = (roster true (pre ++ b :: post)).filter fun e => p.place e ≠ p.place b.toEntry := by
  have ascending := (tiles.spread_roster true).ascending
  rw [roster_true_coalesce, roster_true_freed, roster_of_live live]
  rw [roster_of_live live] at ascending
  obtain ⟨_, tail, cross⟩ := List.pairwise_append.1 ascending
  have before : ∀ e ∈ roster true pre, p.place e ≠ p.place b.toEntry := by
    intro e member
    have := cross e member b.toEntry List.mem_cons_self
    unfold place
    omega
  have after : ∀ e ∈ roster true post, p.place e ≠ p.place b.toEntry := by
    intro e member
    have := (List.pairwise_cons.1 tail).1 e member
    unfold place
    omega
  rw [List.filter_append, List.filter_cons_of_neg (by simp),
    List.filter_eq_self.2 fun e member => decide_eq_true (before e member),
    List.filter_eq_self.2 fun e member => decide_eq_true (after e member)]

/-- One release clears one block. -/
theorem release_ensures (lies : p.Lies heap blocks) {live : Nat}
    (tallies : Usage.Tallies (Managed.overflow heap) (Managed.usage heap) taken live)
    (count : (roster true blocks).length = live) {address : Nat}
    (owned : ∃ e ∈ roster true blocks, address = p.place e) :
    (Allocator.release address : Call σ Unit).Ensures heap False fun _ heap' => ∃ blocks',
      p.Cleared heap heap' blocks taken [address] blocks' ∧
        Usage.Tallies (Managed.overflow heap') (Managed.usage heap') (taken + 1)
          (roster true blocks').length := by
  obtain ⟨e, listed, rfl⟩ := owned
  obtain ⟨pre, b, post, rfl, live, rfl⟩ := exists_parts listed
  have single : (roster true (pre ++ b :: post)).length
      = (roster true (coalesce p.gap (pre ++ b.freed :: post))).length + 1 := by
    rw [roster_true_coalesce, roster_true_freed, roster_of_live live, List.length_append,
      List.length_append, List.length_cons]
    rfl
  rw [← count, single] at tallies
  have room := tallies.canFree (Nat.succ_pos _)
  refine (p.release lies live).mono (fun full => full room) ?_
  rintro _ heap' ⟨lies', same, returned⟩
  have left := tallies.returned returned
  refine ⟨_, ⟨lies', ?_, same, returned.lowWater, returned.allocations, left.frees⟩, same ▸ left⟩
  rw [roster_released (p.tiles lies) live]
  simp only [List.mem_singleton]

/-- **Releases clear what they are to clear**, one after the other. -/
theorem releases_ensure (lies : p.Lies heap blocks)
    (tallies : Usage.Tallies (Managed.overflow heap) (Managed.usage heap) taken
      (roster true blocks).length) {addresses : List Nat} (nodup : addresses.Nodup)
    (owned : ∀ a ∈ addresses, ∃ e ∈ roster true blocks, a = p.place e) :
    (releaseAll addresses : Call σ Unit).Ensures heap False fun _ heap' =>
      ∃ blocks', p.Cleared heap heap' blocks taken addresses blocks' := by
  induction addresses generalizing heap blocks taken with
  | nil =>
    refine Call.Ensures.pure ⟨blocks, lies, ?_, rfl, rfl, rfl, tallies.frees⟩
    simp
  | cons a rest ih =>
    obtain ⟨fresh, nodup⟩ := List.nodup_cons.1 nodup
    refine Call.Ensures.bind (release_ensures lies tallies rfl (owned a List.mem_cons_self)) ?_
    rintro _ heap₁ ⟨blocks₁, first, tallies₁⟩
    have still : ∀ q ∈ rest, ∃ e ∈ roster true blocks₁, q = p.place e := by
      intro q member
      obtain ⟨e, listed, rfl⟩ := owned q (List.mem_cons_of_mem _ member)
      refine ⟨e, ?_, rfl⟩
      rw [first.live]
      refine List.mem_filter.2 ⟨listed, decide_eq_true fun same => ?_⟩
      rw [List.mem_singleton.1 same] at member
      exact fresh member
    refine (ih first.lies tallies₁ nodup still).mono id ?_
    rintro _ heap₂ ⟨blocks₂, second⟩
    refine ⟨blocks₂, second.lies, ?_, second.overflow.trans first.overflow,
      second.lowWater.trans first.lowWater, second.allocations.trans first.allocations, ?_⟩
    · rw [second.live, first.live, List.filter_filter]
      congr 1
      funext e
      simp [Bool.and_comm]
    · have frees := second.frees
      rw [first.overflow] at frees
      rw [List.length_cons, show taken + (rest.length + 1) = taken + 1 + rest.length by omega]
      exact frees

/-- The counters of a heap are determined by its blocks and by what stays as it was. -/
theorem Cleared.usage_eq {heap₁ heap₂ : σ} {addresses addresses' : List Nat}
    (first : p.Cleared heap heap₁ blocks taken addresses blocks')
    (second : p.Cleared heap heap₂ blocks taken addresses' blocks')
    (same : addresses'.length = addresses.length) :
    Managed.usage heap₂ = Managed.usage heap₁ := by
  have free := (p.counted second.lies).trans (p.counted first.lies).symm
  have lowWater := second.lowWater.trans first.lowWater.symm
  have allocations := second.allocations.trans first.allocations.symm
  have frees := (same ▸ second.frees).unique first.frees
  cases usage₁ : Managed.usage heap₁
  cases usage₂ : Managed.usage heap₂
  rw [usage₁, usage₂] at free lowWater allocations frees
  cases free
  cases lowWater
  cases allocations
  cases frees
  rfl

/-- A client's ledger has just the live blocks of the picture, and the counters allow for them. -/
structure Backs (p : Picture σ) (s : Client σ) (blocks : List Block) (taken : Nat) : Prop where
  lies : p.Lies s.heap blocks
  addresses : ∀ a, a ∈ s.grants.map Grant.address ↔ ∃ e ∈ roster true blocks, a = p.place e
  nodup : (s.grants.map Grant.address).Nodup
  tallies : Usage.Tallies (Managed.overflow s.heap) (Managed.usage s.heap) taken
    (roster true blocks).length

variable {s : Client σ}

/-- At a point of a run the ledger is backed and the books are right. -/
theorem backs_of_books [ClientMove μ] {steps : List (Client.Step σ μ)} {gap stop : Nat} {r : Region}
    (lies : p.Lies s.heap blocks) (backed : Backed p.lead gap r (roster true blocks) s.grants)
    (spread : Spread gap stop (roster true blocks)) (base : r.base = p.base)
    (books : Client.Books steps s) : p.Backs s blocks (steps.countP Client.Step.took) where
  lies := lies
  addresses a := by
    unfold place
    rw [← base]
    exact backed.mem_addresses
  nodup := backed.nodup spread
  tallies := by
    have count := backed.matched.length_eq
    rw [List.length_map, List.length_map] at count
    exact count ▸ books.tallies

/-- Releases of the same blocks in two orders leave indistinct heaps. -/
theorem Backs.indistinct (backs : p.Backs s blocks taken) {ps qs : List Nat} (nodup : ps.Nodup)
    (held : ps ⊆ s.grants.map Grant.address) (perm : ps.Perm qs) :
    (releaseAll ps : Call σ Unit).Ensures s.heap False fun _ heap₁ =>
      (releaseAll qs : Call σ Unit).Ensures s.heap False fun _ heap₂ => Indistinct heap₁ heap₂ := by
  have first := releases_ensure backs.lies backs.tallies nodup fun a member =>
    (backs.addresses a).1 (held member)
  have second := releases_ensure backs.lies backs.tallies (perm.nodup_iff.1 nodup) fun a member =>
    (backs.addresses a).1 (held (perm.mem_iff.2 member))
  refine first.mono id ?_
  rintro _ heap₁ ⟨blocks₁, cleared₁⟩
  refine second.mono id ?_
  rintro _ heap₂ ⟨blocks₂, cleared₂⟩
  have live : roster true blocks₂ = roster true blocks₁ := by
    rw [cleared₁.live, cleared₂.live]
    simp only [perm.mem_iff]
  obtain rfl : blocks₂ = blocks₁ := Tiles.eq_of_roster (p.tiles cleared₂.lies)
    (p.settled cleared₂.lies) (p.tiles cleared₁.lies) (p.settled cleared₁.lies) live
  have usage := cleared₁.usage_eq cleared₂ perm.length_eq.symm
  have told := p.statistics cleared₂.lies
  rw [usage] at told
  exact ⟨_, _, _, p.displays cleared₁.lies, p.displays cleared₂.lies, p.statistics cleared₁.lies,
    told⟩

/-- Releases of all blocks restore a heap of one free block. -/
theorem Backs.restored (backs : p.Backs s blocks taken) {block : Block}
    (new : p.Lies heap [block]) (free : block.live = false) {ps : List Nat}
    (perm : ps.Perm (s.grants.map Grant.address)) :
    (releaseAll ps : Call σ Unit).Ensures s.heap False fun _ heap' => Restored heap heap' := by
  refine (releases_ensure backs.lies backs.tallies (perm.nodup_iff.2 backs.nodup) fun a member =>
    (backs.addresses a).1 (perm.mem_iff.1 member)).mono id ?_
  rintro _ heap' ⟨blocks', cleared⟩
  have none_live : roster true blocks' = roster true [block] := by
    rw [cleared.live, roster_cons, if_neg (by rw [free]; decide)]
    refine List.filter_eq_nil_iff.2 fun e listed => ?_
    have member := perm.mem_iff.2 ((backs.addresses _).2 ⟨e, listed, rfl⟩)
    simp [member]
  obtain rfl : blocks' = [block] := Tiles.eq_of_roster (p.tiles cleared.lies)
    (p.settled cleared.lies) (p.tiles new) (p.settled new) none_live
  have shown : roster false [block] = [block.toEntry] ∧ roster true [block] = [] := by
    rw [roster_cons, roster_cons, if_pos free, if_neg (by rw [free]; decide)]
    exact ⟨rfl, rfl⟩
  have display := p.displays new
  have display' := p.displays cleared.lies
  rw [shown.1, shown.2] at display display'
  exact ⟨_, _, _, display, display', p.statistics new, p.statistics cleared.lies,
    (p.counted cleared.lies).trans (p.counted new).symm⟩

private theorem orderFree {h : σ} {block : Block} (new : p.Lies h [block]) (free : block.live = false)
    (backs : ∀ s, Call.Reachable Managed.perform Managed.Legal (Client.start h) s →
      ∃ blocks taken, p.Backs s blocks taken) : OrderFree h where
  indistinct s reached ps qs nodup held perm := by
    obtain ⟨blocks, taken, backs⟩ := backs s reached
    exact backs.indistinct nodup held perm
  restored s reached ps perm := by
    obtain ⟨blocks, taken, backs⟩ := backs s reached
    exact backs.restored new free perm

end Picture

namespace Tagged

variable {region : Region} {settings : Settings} {overflow : Overflow} {h : Heap}

/-- Tagged heaps in the place of a heap, pictured as their blocks. -/
def picture (h : Heap) : Picture Heap where
  Lies heap blocks := heap.Laid blocks ∧ SamePlace h heap
  gap := 0
  lead := h.headerSize
  base := h.region.base
  start := h.start
  stop := h.endMarker
  tiles := by
    rintro heap blocks ⟨laid, same⟩
    rw [← same.start, ← same.endMarker]
    exact laid.tiles
  settled lies := lies.1.settled
  counted lies := lies.1.counted
  displays lies := ⟨_, lies.1.shows, rfl, rfl, lies.1.freeBlocks_eq⟩
  statistics lies := lies.1.statistics_eq
  release := by
    rintro heap pre b post ⟨laid, same⟩ live
    rw [← same.base, ← same.headerSize_eq]
    refine (Heap.release_live laid live).mono id ?_
    intro _ heap' released
    exact ⟨⟨released.laid, same.of_alike released.alike released.region.sameBase⟩,
      released.alike.overflow, released.returned laid⟩

/-- The picture of a tagged heap backs every client that is reached. -/
theorem exists_backs {s : Client Heap} (created : Heap.create region settings overflow = .ok h)
    (reached : Reached h s) : ∃ blocks taken, (picture h).Backs s blocks taken := by
  obtain ⟨steps, runs⟩ := Client.exists_runs (h := h) (s := s) reached
  obtain ⟨blocks, held⟩ := held_reached created reached
  obtain ⟨_, books⟩ := runs_in_order created steps s runs
  have backed := held.backed
  rw [held.same.headerSize_eq] at backed
  exact ⟨blocks, _, Picture.backs_of_books ⟨held.laid, held.same⟩ backed (held.laid.spread true)
    held.same.base books⟩

private theorem order_free (created : Heap.create region settings overflow = .ok h) : OrderFree h := by
  obtain ⟨size, laid, _⟩ := Heap.laid_create created
  apply (picture h).orderFree ⟨laid, rfl, rfl, rfl, rfl⟩ rfl
  intro s reached
  exact exists_backs created reached

end Tagged

namespace TwoList

variable {region : Region} {overflow : Overflow} {h : Heap}

/-- Two-list heaps in a region, pictured as their blocks. -/
def picture (region : Region) : Picture Heap where
  Lies heap blocks := heap.Laid blocks ∧ heap.region.base = region.base ∧
    heap.region.size = region.size
  gap := 16
  lead := 16
  base := region.base
  start := 0
  stop := region.size
  tiles lies := lies.2.2 ▸ lies.1.tiles
  settled lies := lies.1.settled
  counted lies := lies.1.counted
  displays lies := ⟨lies.1.entries_eq .free, lies.1.entries_eq .used⟩
  statistics lies := lies.1.statistics_eq
  release := by
    rintro heap pre b post ⟨laid, base, size⟩ live
    rw [← base]
    refine (Heap.release_live laid live).mono id ?_
    intro _ heap' released
    exact ⟨⟨released.laid, released.region.sameBase, released.region.sameSize.trans size⟩,
      released.overflow, released.returned laid live⟩

/-- The picture of a two-list heap backs every client that is reached. -/
theorem exists_backs {s : Client Heap} (created : Heap.create region overflow = .ok h)
    (reached : Reached h s) : ∃ blocks taken, (picture region).Backs s blocks taken := by
  obtain ⟨steps, runs⟩ := Client.exists_runs (h := h) (s := s) reached
  obtain ⟨blocks, held⟩ := held_reached created reached
  obtain ⟨_, books⟩ := runs_in_order created steps s runs
  exact ⟨blocks, _, Picture.backs_of_books ⟨held.laid, held.base, held.size⟩ held.backed
    (held.laid.spread true) held.base books⟩

private theorem order_free (created : Heap.create region overflow = .ok h) : OrderFree h := by
  obtain ⟨large, _⟩ := Heap.usage_of_create created
  obtain ⟨h', made, laid, base, size, _⟩ := Heap.laid_create overflow large
  obtain rfl := Except.ok.inj (made.symm.trans created)
  apply (picture region).orderFree ⟨laid, base, size⟩ rfl
  intro s reached
  exact exists_backs created reached

end TwoList

/-- **The order of releases does not matter**, for tagged heaps and for two-list heaps. -/
theorem releases_commute :
    (∀ {region settings overflow h}, Tagged.Heap.create region settings overflow = .ok h →
      OrderFree h) ∧
    ∀ {region overflow h}, TwoList.Heap.create region overflow = .ok h → OrderFree h :=
  ⟨Tagged.order_free, TwoList.order_free⟩

/-- Two live blocks of either heap, released in both orders. -/
theorem releases_commute_on_runs :
    (∃ (h : Tagged.Heap) (s : Client Tagged.Heap),
      s.grants.map Grant.address = [4128, 4160] ∧
      ((releaseAll [4128, 4160] : Call Tagged.Heap Unit).Ensures s.heap False fun _ heap₁ =>
        (releaseAll [4160, 4128] : Call Tagged.Heap Unit).Ensures s.heap False fun _ heap₂ =>
          Indistinct heap₁ heap₂) ∧
      (releaseAll [4160, 4128] : Call Tagged.Heap Unit).Ensures s.heap False fun _ heap =>
        Restored h heap) ∧
    ∃ (h : TwoList.Heap) (s : Client TwoList.Heap),
      s.grants.map Grant.address = [4136, 4115] ∧
      ((releaseAll [4136, 4115] : Call TwoList.Heap Unit).Ensures s.heap False fun _ heap₁ =>
        (releaseAll [4115, 4136] : Call TwoList.Heap Unit).Ensures s.heap False fun _ heap₂ =>
          Indistinct heap₁ heap₂) ∧
      (releaseAll [4115, 4136] : Call TwoList.Heap Unit).Ensures s.heap False fun _ heap =>
        Restored h heap := by
  constructor
  · obtain ⟨h, s, created, reached, granted⟩ := Tagged.reached_mixedRun
    have addresses := Grant.map_address_of_map granted
    obtain ⟨indistinct, restored⟩ := releases_commute.1 created
    refine ⟨h, s, addresses, indistinct s reached _ _ (by decide) ?_ (by decide), ?_⟩
    · rw [addresses]
      exact List.Subset.refl _
    · refine restored s reached _ ?_
      rw [addresses]
      decide
  · obtain ⟨h, s, created, reached, addresses⟩ : ∃ h s,
        TwoList.Heap.create TwoList.smallRegion .trap = .ok h ∧ TwoList.Reached h s ∧
        s.grants.map Grant.address = [4136, 4115] :=
      ⟨_, Call.after Client.perform _ [.allocate 5, .allocate 3], rfl,
        Call.Reachable.start.of_goes (by decide +kernel), by decide +kernel⟩
    obtain ⟨indistinct, restored⟩ := releases_commute.2 created
    refine ⟨h, s, addresses, indistinct s reached _ _ (by decide) ?_ (by decide), ?_⟩
    · rw [addresses]
      exact List.Subset.refl _
    · refine restored s reached _ ?_
      rw [addresses]
      decide

end RegionAlloc
