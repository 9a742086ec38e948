import RegionAlloc.Proofs.Allotment

/-!
# A release undoes an allocation

An allocation cuts a free block, a release merges free blocks. They are different code, with an
arithmetic of their own each. But a merge leaves no two free blocks next to one another, as they were
before the cut, and the live blocks are again the same. So the blocks are the same
(`Block.Tiles.eq_of_roster`), whether the allocation took a block whole or not, and the release took
in no neighbour that was not there before.
-/

namespace RegionAlloc

open Block

section Outcomes

variable {σ μ : Type} [Allocator σ] [Managed σ μ]

/-- `after` has the free blocks and the live ones that `before` had, and the same statistics, but for
one more allocation and one more free, and for the low-water mark. That is lowered to what was free
`between` the two. -/
structure Undone (before between after : σ) (free live : List Entry) (stats : Statistics)
    (allocations frees : Nat) : Prop where
  shown : Managed.Displays before free live
  restored : Managed.Displays after free live
  told : Managed.statistics before = .ok stats
  retold : Managed.statistics after = .ok
    { stats with lowWater := min stats.lowWater (Managed.usage between).free, allocations, frees }
  given : (Managed.overflow before).add stats.allocations 1 = .ok allocations
  taken : (Managed.overflow before).add stats.frees 1 = .ok frees

/-- What the call allocates is taken back by a release at once, and that undoes the allocation. Only a
full counter of allocations can stop it. -/
def UndoneByRelease (heap : σ) (allocation : Call σ (Option Nat)) : Prop :=
  allocation.Ensures heap (¬ (Managed.usage heap).CanAllocate (Managed.overflow heap))
    fun place between => ∀ address, place = some address →
      (Allocator.release address : Call σ Unit).Ensures between False fun _ after =>
        ∃ free live stats allocations frees,
          Undone heap between after free live stats allocations frees

end Outcomes

namespace Picture

variable {σ μ : Type} [Allocator σ] [Managed σ μ] {p : Picture σ} {before between after : σ}
  {blocks pre post : List Block} {b : Block} {n slack taken : Nat}

/-- Once a block that was cut off is taken back, the blocks are as they were. -/
theorem coalesce_carved (lies : p.Lies before (pre ++ b :: post)) (free : b.live = false)
    (lies' : p.Lies after
      (coalesce p.gap (pre ++ (Block.taken slack n b).freed :: (leftover p.gap slack n b ++ post)))) :
    coalesce p.gap (pre ++ (Block.taken slack n b).freed :: (leftover p.gap slack n b ++ post))
      = pre ++ b :: post := by
  apply Tiles.eq_of_roster (p.tiles lies') (p.settled lies') (p.tiles lies) (p.settled lies)
  rw [roster_true_coalesce, roster_true_freed, roster_append, roster_true_leftover, List.nil_append,
    roster_true_of_free free]

/-- The same blocks, with an allocation and a release counted, are what an allocation and its release
leave. -/
theorem undone_of_lies {bytes : Nat} (lies : p.Lies before blocks) (lies' : p.Lies after blocks)
    (overflow : Managed.overflow between = Managed.overflow before)
    (counted : (Managed.usage before).allocate bytes (Managed.overflow before)
      = .ok (Managed.usage between))
    (returned : Usage.Returned (Managed.overflow between) (Managed.usage between)
      (Managed.usage after)) :
    ∃ free live stats allocations frees,
      Undone before between after free live stats allocations frees := by
  obtain ⟨_, spent, lowWater, frees, allocations⟩ := Usage.of_allocate counted
  have available := (p.counted lies').trans (p.counted lies).symm
  have mark := returned.lowWater
  have given := returned.allocations
  have taken := returned.frees
  have told := p.statistics lies'
  rw [lowWater, ← spent] at mark
  rw [overflow, frees] at taken
  rw [← given] at allocations
  refine ⟨_, _, _, _, _, p.displays lies, p.displays lies', p.statistics lies, ?_, allocations, taken⟩
  rw [told, Statistics.ofSurvey, available, mark]
  rfl

/-- **An allocation is undone by a release**, wherever a ledger backs the picture. -/
theorem Backs.undone {need : Nat → Nat} {s : Client σ} (allots : p.Allots need slack)
    (backs : p.Backs s blocks taken) (request : Nat) :
    UndoneByRelease s.heap (Allocator.tryAllocate request) := by
  apply (allots request backs.lies).mono id
  intro place between allotment address given
  cases allotment with
  | refused _ => cases given
  | @granted pre post b _ parts free fits first lies overflow counted =>
    obtain rfl := Option.some.inj given
    subst parts
    have tallies := backs.tallies.given counted
    rw [← overflow] at tallies
    have room := tallies.canFree (Nat.succ_pos _)
    -- The block that was cut off begins where the free one did, so it is the one at the address.
    have pieces : p.Lies between (pre ++ Block.taken slack (need request) b ::
      (leftover p.gap slack (need request) b ++ post)) := lies
    apply (p.release pieces rfl).mono (fun full => full room)
    intro _ after cleared
    obtain ⟨lies', same, returned⟩ := cleared
    rw [coalesce_carved backs.lies free lies'] at lies'
    exact undone_of_lies backs.lies lies' overflow counted returned

end Picture

/-- **An allocation is undone by the release of what it gives**, in every reachable state of either
kind of heap, and whether or not the allocation would have rung a hook. -/
theorem allocation_undone_by_release :
    (∀ {region settings overflow h s}, Tagged.Heap.create region settings overflow = .ok h →
      Tagged.Reached h s → ∀ request, UndoneByRelease s.heap (Allocator.tryAllocate request) ∧
        UndoneByRelease s.heap (Allocator.allocate request)) ∧
    ∀ {region overflow h s}, TwoList.Heap.create region overflow = .ok h →
      TwoList.Reached h s → ∀ request, UndoneByRelease s.heap (Allocator.tryAllocate request) ∧
        UndoneByRelease s.heap (Allocator.allocate request) := by
  constructor
  · intro region settings overflow h s created reached request
    obtain ⟨blocks, taken, backs⟩ := Tagged.exists_backs created reached
    have undone := backs.undone (Tagged.allots h) request
    exact ⟨undone, Client.ensures_allocate undone⟩
  · intro region overflow h s created reached request
    obtain ⟨blocks, taken, backs⟩ := TwoList.exists_backs created reached
    have undone := backs.undone (TwoList.allots region) request
    exact ⟨undone, Client.ensures_allocate undone⟩

/-- A block is released in front of one that is still held. -/
def Tagged.gappedRun : List Tagged.Move :=
  [.basic (.allocate 5), .basic (.allocate 20), .basic (.release 4128)]

set_option maxRecDepth 4000 in
/-- After that run one byte is handed out where the first block was. -/
theorem Tagged.allocate_gappedRun : ∃ h s between events,
    Heap.create oddRegion clearing .trap = .ok h ∧ Reached h s ∧
    s.grants.map Grant.address = [4160] ∧
    (Allocator.allocate 1 : Call Heap (Option Nat)).run s.heap
      = ⟨.ok (some 4128), between, events⟩ := by
  obtain ⟨h, created, goes, known⟩ : ∃ h, Heap.create oddRegion clearing .trap = .ok h ∧
      Call.Goes perform Legal (Client.start h) gappedRun ∧
      ((Call.after perform (Client.start h) gappedRun).grants.map Grant.address,
        ((Allocator.allocate 1 : Call Heap (Option Nat)).run
          (Call.after perform (Client.start h) gappedRun).heap).result.toOption)
        = ([4160], some (some 4128)) := ⟨_, rfl, by decide +kernel⟩
  obtain ⟨s, between, events, reached, granted, run⟩ :=
    Call.exists_run_after (fun s => s.grants.map Grant.address) Client.heap goes known
  exact ⟨h, s, between, events, created, reached, granted, run⟩

/-- After the small run one byte is handed out where the first block was. -/
theorem TwoList.allocate_smallRun : ∃ h s between events,
    Heap.create smallRegion .trap = .ok h ∧ Reached h s ∧
    s.grants.map Grant.address = [4136] ∧
    (Allocator.allocate 1 : Call Heap (Option Nat)).run s.heap
      = ⟨.ok (some 4115), between, events⟩ := by
  obtain ⟨h, created, goes, known⟩ : ∃ h, Heap.create smallRegion .trap = .ok h ∧
      Call.Goes Client.perform Client.WritesOwn (Client.start h) smallRun ∧
      ((Call.after Client.perform (Client.start h) smallRun).grants.map Grant.address,
        ((Allocator.allocate 1 : Call Heap (Option Nat)).run
          (Call.after Client.perform (Client.start h) smallRun).heap).result.toOption)
        = ([4136], some (some 4115)) := ⟨_, rfl, by decide +kernel⟩
  obtain ⟨s, between, events, reached, granted, run⟩ :=
    Call.exists_run_after (fun s => s.grants.map Grant.address) Client.heap goes known
  exact ⟨h, s, between, events, created, reached, granted, run⟩

/-- One byte is got and given back at once, from both heaps in the middle of a run. -/
theorem allocation_undone_by_release_on_runs :
    (∃ (s : Client Tagged.Heap) (between : Tagged.Heap) (events : List Event),
      s.grants.map Grant.address = [4160] ∧
      (Allocator.allocate 1 : Call Tagged.Heap (Option Nat)).run s.heap
        = ⟨.ok (some 4128), between, events⟩ ∧
      (Allocator.release 4128 : Call Tagged.Heap Unit).Ensures between False fun _ after =>
        ∃ free live stats allocations frees,
          Undone s.heap between after free live stats allocations frees) ∧
    ∃ (s : Client TwoList.Heap) (between : TwoList.Heap) (events : List Event),
      s.grants.map Grant.address = [4136] ∧
      (Allocator.allocate 1 : Call TwoList.Heap (Option Nat)).run s.heap
        = ⟨.ok (some 4115), between, events⟩ ∧
      (Allocator.release 4115 : Call TwoList.Heap Unit).Ensures between False fun _ after =>
        ∃ free live stats allocations frees,
          Undone s.heap between after free live stats allocations frees := by
  constructor
  · obtain ⟨h, s, between, events, created, reached, granted, run⟩ := Tagged.allocate_gappedRun
    have undone := (allocation_undone_by_release.1 created reached 1).2
    exact ⟨s, between, events, granted, run, undone.post_of_run run 4128 rfl⟩
  · obtain ⟨h, s, between, events, created, reached, granted, run⟩ := TwoList.allocate_smallRun
    have undone := (allocation_undone_by_release.2 created reached 1).2
    exact ⟨s, between, events, granted, run, undone.post_of_run run 4115 rfl⟩

end RegionAlloc
