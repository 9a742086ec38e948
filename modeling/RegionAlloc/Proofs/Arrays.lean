import RegionAlloc.Proofs.Holdings
import RegionAlloc.Proofs.Locked

/-!
# Arrays of an element type

The allocation of an array decides by the number of bytes, its release by the two factors of that, and
each engine has a boundary of its own. Still every request has the one answer that is due to it
(`TypedHandle.Due`), only a request for which there is no room reaches the hook, and whatever else the
client does in between, the release takes back just the block that the allocation took
(`Picture.AllocatesArrays`).
-/

namespace RegionAlloc

open Block

namespace TypedHandle

/-- The request is passed on to the heap: a word holds the number of bytes, there are some, and the
element's boundary is not coarser than the heap's. -/
structure Asks (t : TypedHandle) (heapAlign count : Nat) : Prop where
  small : count * t.element.size < 0x10000000000000000
  someBytes : 0 < count * t.element.size
  fine : t.element.align ≤ heapAlign

/-- The answer that is due to a request for an array of `count` elements. Of the heap it depends on the
boundary, on how many bytes of a free block a request needs, and on the free blocks. -/
inductive Due (t : TypedHandle) (heapAlign : Nat) (need : Nat → Nat) (free : List Entry)
    (count : Nat) : Except TypedError ArrayPlace → Prop
  | overflow (large : 0x10000000000000000 ≤ count * t.element.size) :
      Due t heapAlign need free count (.error (.capacityOverflow count t.element.size))
  | misaligned (small : count * t.element.size < 0x10000000000000000)
      (coarse : heapAlign < t.element.align) :
      Due t heapAlign need free count (.error (.misaligned t.element.align heapAlign))
  | dangling (fine : t.element.align ≤ heapAlign) (nothing : count * t.element.size = 0) :
      Due t heapAlign need free count (.ok (.dangling t.element.align))
  | exhausted (asks : t.Asks heapAlign count)
      (crowded : ∀ e ∈ free, e.size < need (count * t.element.size)) :
      Due t heapAlign need free count (.error (.exhausted (count * t.element.size)))
  | block (asks : t.Asks heapAlign count)
      (room : ∃ e ∈ free, need (count * t.element.size) ≤ e.size) (address : Nat) :
      Due t heapAlign need free count (.ok (.block address))

end TypedHandle

namespace Picture

section Answers

variable {σ μ : Type} [Allocator σ] [Managed σ μ] {p : Picture σ} {need : Nat → Nat} {s : Client σ}
  {blocks : List Block} {count : Nat} {t : TypedHandle} {body : HookBodies (Guarded σ)}

namespace Follows

variable (follows : p.Follows need)

include follows

/-- A request that is passed on comes to what the heap makes of it. -/
theorem run_array (owns : p.Owns s blocks) (asks : t.Asks (Allocator.alignment s.heap) count) :
    (t.allocate body count).run (.ofHeap s.heap)
      = ((Guarded.allocate body (count * t.element.size)).run (.ofHeap s.heap)).map
        (TypedHandle.placed (count * t.element.size)) :=
  (follows.serves owns.lies).routes_agree.typed body t count _ rfl asks.someBytes asks.small asks.fine

private theorem exhausts (owns : p.Owns s blocks) (asks : t.Asks (Allocator.alignment s.heap) count)
    (crowded : ∀ e ∈ roster false blocks, e.size < need (count * t.element.size)) :
    RefusedAs body s.heap (.error (.exhausted (count * t.element.size)))
      ((t.allocate body count).run (.ofHeap s.heap)) := by
  have refuses := (follows.refuses_iff owns).2 (Or.inr crowded)
  have refused : RefusedAs body s.heap none
      ((Guarded.allocate body (count * t.element.size)).run (.ofHeap s.heap)) :=
    (follows.clean owns).refusedAs asks.someBytes refuses
  rw [follows.run_array owns asks, ← Call.run_bind_pure]
  exact refused.bind rfl

/-- There is no other answer than the one that is due. -/
theorem due (owns : p.Owns s blocks) {answer : Except TypedError ArrayPlace}
    (told : ((t.allocate body count).run (.ofHeap s.heap)).result = .ok answer) :
    t.Due (Allocator.alignment s.heap) need (roster false blocks) count answer := by
  by_cases large : 0x10000000000000000 ≤ count * t.element.size
  · rw [t.run_allocate_of_overflow large] at told
    obtain rfl := Except.ok.inj told
    exact .overflow large
  have small := Nat.lt_of_not_le large
  by_cases coarse : Allocator.alignment s.heap < t.element.align
  · rw [t.run_allocate small, if_pos coarse] at told
    obtain rfl := Except.ok.inj told
    exact .misaligned small coarse
  have fine := Nat.le_of_not_lt coarse
  by_cases nothing : count * t.element.size = 0
  · rw [t.run_allocate small, if_neg coarse, if_pos nothing] at told
    obtain rfl := Except.ok.inj told
    exact .dangling fine nothing
  have asks : t.Asks (Allocator.alignment s.heap) count := ⟨small, Nat.pos_of_ne_zero nothing, fine⟩
  rcases crowded_or_room (roster false blocks) (need (count * t.element.size)) with crowded | room
  · obtain rfl := (follows.exhausts owns asks crowded).eq_of_result told
    exact .exhausted asks crowded
  have goes := follows.not_refuses owns asks.someBytes room
  rw [follows.run_array owns asks, (follows.clean owns).lockedServes body _ (Or.inr goes)] at told
  change (Allocator.attempt s.heap (count * t.element.size)).result.map
    (TypedHandle.placed (count * t.element.size)) = .ok answer at told
  cases attempted : (Allocator.attempt s.heap (count * t.element.size)).result with
  | error fault =>
    rw [attempted] at told
    cases told
  | ok place =>
    rw [attempted] at told
    obtain rfl := Except.ok.inj told
    cases place with
    | none => exact absurd attempted goes
    | some address => exact .block asks room address

end Follows

end Answers

section Arrays

variable {σ μ : Type} [Allocator σ] [ClientMove μ] [Managed σ μ]

/-- The handle releases the block `e` with the array, and nothing else. -/
def ReleasesJust (p : Picture σ) (u : TypedHandle) (s : Client σ) (address count : Nat) (e : Entry) :
    Prop :=
  (u.release address count).Ensures (.ofHeap s.heap) False fun _ g =>
    ∃ heap free live free' live', g = .ofHeap heap ∧ Managed.Displays s.heap free live ∧ e ∈ live ∧
      Managed.Displays heap free' live' ∧ p.TookBack s free live e heap free' live'

/-- What a client of the heap `h` gets for an array of `count` elements: memory at `address`, in the
block `e` of the heap that is left. It lies on the element's boundary. As long as the client does not
give it back, any handle on the same heap for the same elements can release it. The heap is the state
that the release is run on; the name that a handle carries only says that it is a handle on that one. -/
structure GotArray (p : Picture σ) (h : σ) (s : Client σ) (live : List Entry) (t : TypedHandle)
    (count address : Nat) (heap : σ) (live' : List Entry) (e : Entry) : Prop where
  reached : Client.Reached h
    { heap, grants := Grant.fresh address (count * t.element.size) :: s.grants }
  gave : p.Gave s live (count * t.element.size) address heap live' e
  aligned : Word.IsPowerOfTwo t.element.align → t.element.align ∣ address
  releases : ∀ s' (u : TypedHandle), Client.Keeping address
    { heap, grants := Grant.fresh address (count * t.element.size) :: s.grants } s' →
      t.sameHeap u = true → u.element = t.element → p.ReleasesJust u s' address count e

/-- How a client's heap with these free and live blocks allocates arrays. Each answer is the one that
is due. The heap is left alone unless it gives memory, and no hook runs unless the heap has no room. An
array without bytes is given back without touching anything. -/
structure AllocatesArrays (p : Picture σ) (need : Nat → Nat) (h : σ) (s : Client σ)
    (free live : List Entry) (body : HookBodies (Guarded σ)) (t : TypedHandle) (count : Nat) :
    Prop where
  due : ∀ answer, ((t.allocate body count).run (.ofHeap s.heap)).result = .ok answer →
    t.Due (Allocator.alignment s.heap) need free count answer
  overflow : 0x10000000000000000 ≤ count * t.element.size →
    (t.allocate body count).run (.ofHeap s.heap)
      = ⟨.ok (.error (.capacityOverflow count t.element.size)), .ofHeap s.heap, []⟩
  misaligned : count * t.element.size < 0x10000000000000000 →
    Allocator.alignment s.heap < t.element.align →
      (t.allocate body count).run (.ofHeap s.heap)
        = ⟨.ok (.error (.misaligned t.element.align (Allocator.alignment s.heap))),
          .ofHeap s.heap, []⟩
  dangling : t.element.align ≤ Allocator.alignment s.heap → count * t.element.size = 0 →
    (t.allocate body count).run (.ofHeap s.heap)
      = ⟨.ok (.ok (.dangling t.element.align)), .ofHeap s.heap, []⟩
  exhausted : t.Asks (Allocator.alignment s.heap) count →
    (∀ e ∈ free, e.size < need (count * t.element.size)) →
      RefusedAs body s.heap (.error (.exhausted (count * t.element.size)))
        ((t.allocate body count).run (.ofHeap s.heap))
  given : t.Asks (Allocator.alignment s.heap) count →
    (∃ e ∈ free, need (count * t.element.size) ≤ e.size) →
      Event.rings ((t.allocate body count).run (.ofHeap s.heap)).events = [] ∧
      (t.allocate body count).Ensures (.ofHeap s.heap)
        (¬ (Managed.usage s.heap).CanAllocate (Managed.overflow s.heap)) fun answer g =>
          ∃ address heap free' live' e, answer = .ok (.block address) ∧ g = .ofHeap heap ∧
            Managed.Displays heap free' live' ∧
            p.GotArray h s live t count address heap live' e
  released : count * t.element.size = 0 → ∀ u : TypedHandle, t.sameHeap u = true →
    u.element = t.element → ∀ address (g : Guarded σ),
      (u.release address count).run g = ⟨.ok (), g, []⟩

variable {p : Picture σ} {need : Nat → Nat} {h : σ} {s : Client σ} {blocks : List Block} {e : Entry}
  {address count : Nat} {t : TypedHandle} {body : HookBodies (Guarded σ)}

namespace Follows

variable (follows : p.Follows need)

include follows

/-- A block that is still live is released by any handle for the same elements. -/
theorem releasesJust (order : Client.RunsInOrder h) (reached : Client.Reached h s)
    (owns : p.Owns s blocks) (listed : e ∈ roster true blocks) (u : TypedHandle)
    (asked : 0 < count * u.element.size) : p.ReleasesJust u s (p.place e) count e := by
  obtain ⟨g, member, _⟩ := owns.exists_grant listed
  have room := order.canFree reached member
  apply u.ensures_release asked
  apply (follows.takes_back owns listed).mono fun full => full room
  intro _ heap taken
  obtain ⟨blocks', owns', took⟩ := taken
  exact ⟨heap, _, _, _, _, rfl, p.displays owns.lies, listed, p.displays owns'.lies, took⟩

variable [TakesMoves σ]

/-- What the heap does not refuse is memory for the array. -/
theorem gets (stays : p.Stays) (order : Client.RunsInOrder h) (reached : Client.Reached h s)
    (owns : p.Owns s blocks) (asks : t.Asks (Allocator.alignment s.heap) count)
    (goes : ¬ Refuses s.heap (count * t.element.size)) :
    (Allocator.tryAllocate (count * t.element.size) : Call σ (Option Nat)).Ensures s.heap
      (¬ (Managed.usage s.heap).CanAllocate (Managed.overflow s.heap)) fun place heap =>
        ∃ address free' live' e, place = some address ∧ Managed.Displays heap free' live' ∧
          p.GotArray h s (roster true blocks) t count address heap live' e := by
  have serves := follows.serves owns.lies
  have aligned := (serves.allocates (count * t.element.size)).mono (fun _ => trivial) fun _ _ => id
  have moved := (reached.tryAllocate (count * t.element.size)).and aligned
  apply ((follows.gives owns goes).and moved).mono id
  intro place heap both
  obtain ⟨⟨address, blocks', e, rfl, owns', gave⟩, reached', boundary⟩ := both
  refine ⟨address, _, _, e, rfl, p.displays owns'.lies, reached', gave, ?_, ?_⟩
  · intro power
    exact Nat.dvd_trans (power.dvd_of_le serves.boundary asks.fine) (boundary address rfl)
  · intro s' u keeping _ same
    obtain rfl := gave.place
    have listed := (gave.live e).2 (Or.inl rfl)
    obtain ⟨blocks'', owns'', still⟩ := owns'.keeping stays listed keeping
    apply follows.releasesJust order (Client.Reached.keeping reached' keeping) owns'' still u
    rw [same]
    exact asks.someBytes

/-- **Arrays are allocated as is due, and released as they were allocated.** -/
theorem allocatesArrays (stays : p.Stays) (order : Client.RunsInOrder h)
    (reached : Client.Reached h s) (owns : p.Owns s blocks) (body : HookBodies (Guarded σ))
    (t : TypedHandle) (count : Nat) :
    p.AllocatesArrays need h s (roster false blocks) (roster true blocks) body t count where
  due _ := follows.due owns
  overflow large := t.run_allocate_of_overflow large _
  misaligned small coarse := by
    rw [t.run_allocate small, if_pos coarse]
  dangling fine nothing := by
    rw [t.run_allocate (by rw [nothing]; decide), if_neg (Nat.not_lt.2 fine), if_pos nothing]
  exhausted := follows.exhausts owns
  given asks room := by
    have clean := follows.clean owns
    have goes := follows.not_refuses owns asks.someBytes room
    constructor
    · rw [follows.run_array owns asks, clean.lockedServes body _ (Or.inr goes)]
      exact clean.attemptRings _
    · apply Call.Ensures.of_run_map (follows.run_array owns asks)
      apply Guarded.ensures_allocate clean goes
      apply (follows.gets stays order reached owns asks goes).mono id
      intro place heap got
      obtain ⟨address, free', live', e, rfl, shown, got⟩ := got
      exact ⟨address, heap, free', live', e, rfl, rfl, shown, got⟩
  released nothing u _ same := by
    apply u.run_release_of_empty
    rw [same]
    exact nothing

end Follows

/-- Where a block was the answer, the client got the array. -/
theorem AllocatesArrays.got {free live : List Entry} {g : Guarded σ} {events : List Event}
    (allocates : p.AllocatesArrays need h s free live body t count)
    (run : (t.allocate body count).run (.ofHeap s.heap) = ⟨.ok (.ok (.block address)), g, events⟩) :
    ∃ heap free' live' e, g = .ofHeap heap ∧ Managed.Displays heap free' live' ∧
      p.GotArray h s live t count address heap live' e := by
  have due := allocates.due _ (congrArg Outcome.result run)
  cases due with
  | block asks room =>
    obtain ⟨_, given⟩ := allocates.given asks room
    obtain ⟨_, heap, free', live', e, same, left, shown, got⟩ := given.post_of_run run
    cases same
    exact ⟨heap, free', live', e, left, shown, got⟩

end Arrays

end Picture

/-- **Arrays are allocated exactly and their calls pair**, on either kind of heap behind its lock, in
every state that a client can lead to, for every element type and every count. -/
theorem arrays_exact :
    (∀ {region settings overflow h s}, Tagged.Heap.create region settings overflow = .ok h →
      Tagged.Reached h s → ∃ free live, Managed.Displays s.heap free live ∧ ∀ body t count,
        (Tagged.picture h).AllocatesArrays
          (fun bytes => Word.roundUp (bytes + h.headerSize) h.settings.alignment)
          h s free live body t count) ∧
    ∀ {region overflow h s}, TwoList.Heap.create region overflow = .ok h → TwoList.Reached h s →
      ∃ free live, Managed.Displays s.heap free live ∧ ∀ body t count,
        (TwoList.picture region).AllocatesArrays (fun bytes => bytes)
          h s free live body t count := by
  constructor
  · intro region settings overflow h s created reached
    obtain ⟨blocks, held⟩ := Tagged.held_reached created reached
    have owns := Tagged.owns_iff.2 held
    refine ⟨_, _, (Tagged.picture h).displays owns.lies, ?_⟩
    exact (Tagged.follows h).allocatesArrays (Tagged.stays h) (Tagged.runs_in_order created) reached owns
  · intro region overflow h s created reached
    obtain ⟨blocks, held⟩ := TwoList.held_reached created reached
    have owns := TwoList.owns_iff.2 held
    refine ⟨_, _, (TwoList.picture region).displays owns.lies, ?_⟩
    exact (TwoList.follows region).allocatesArrays (TwoList.stays region)
      (TwoList.runs_in_order created) reached owns

/-- A handle for arrays of bytes. -/
def octets : TypedHandle :=
  { heap := 0, element := { name := "u8", size := 1, align := 1 } }

set_option maxRecDepth 4000 in
/-- After the crowded run there is still room for three bytes. -/
theorem Tagged.octets_crowdedRun : ∃ h s g events,
    Heap.create oddRegion clearing .trap = .ok h ∧ Reached h s ∧
    s.grants.map Grant.address = [4128] ∧
    (octets.allocate (fun _ => pure ()) 3 : Call (Guarded Heap) _).run (.ofHeap s.heap)
      = ⟨.ok (.ok (.block 4224)), g, events⟩ := by
  obtain ⟨h, created, goes, known⟩ : ∃ h, Heap.create oddRegion clearing .trap = .ok h ∧
      Call.Goes perform Legal (Client.start h) crowdedRun ∧
      ((Call.after perform (Client.start h) crowdedRun).grants.map Grant.address,
        ((octets.allocate (fun _ => pure ()) 3 : Call (Guarded Heap) _).run
          (.ofHeap (Call.after perform (Client.start h) crowdedRun).heap)).result.toOption)
        = ([4128], some (.ok (.block 4224))) := ⟨_, rfl, by decide +kernel⟩
  obtain ⟨s, g, events, reached, granted, run⟩ := Call.exists_run_after
    (fun s => s.grants.map Grant.address) (fun s => Guarded.ofHeap s.heap) goes known
  exact ⟨h, s, g, events, created, reached, granted, run⟩

/-- After the small run three bytes are placed where the first block was. -/
theorem TwoList.octets_smallRun : ∃ h s g events,
    Heap.create smallRegion .trap = .ok h ∧ Reached h s ∧
    s.grants.map Grant.address = [4136] ∧
    (octets.allocate (fun _ => pure ()) 3 : Call (Guarded Heap) _).run (.ofHeap s.heap)
      = ⟨.ok (.ok (.block 4115)), g, events⟩ := by
  obtain ⟨h, created, goes, known⟩ : ∃ h, Heap.create smallRegion .trap = .ok h ∧
      Call.Goes Client.perform Client.WritesOwn (Client.start h) smallRun ∧
      ((Call.after Client.perform (Client.start h) smallRun).grants.map Grant.address,
        ((octets.allocate (fun _ => pure ()) 3 : Call (Guarded Heap) _).run
          (.ofHeap (Call.after Client.perform (Client.start h) smallRun).heap)).result.toOption)
        = ([4136], some (.ok (.block 4115))) := ⟨_, rfl, by decide +kernel⟩
  obtain ⟨s, g, events, reached, granted, run⟩ := Call.exists_run_after
    (fun s => s.grants.map Grant.address) (fun s => Guarded.ofHeap s.heap) goes known
  exact ⟨h, s, g, events, created, reached, granted, run⟩

/-- Octets on both heaps in the middle of a run: three of them are got, and more than a word counts are
refused. -/
theorem arrays_exact_on_runs :
    (∃ (h : Tagged.Heap) (s : Client Tagged.Heap) (free live : List Entry) (heap : Tagged.Heap)
      (free' live' : List Entry) (e : Entry), s.grants.map Grant.address = [4128] ∧
      Managed.Displays s.heap free live ∧ Managed.Displays heap free' live' ∧
      (Tagged.picture h).GotArray h s live octets 3 4224 heap live' e ∧
      ∀ body, (octets.allocate body 0x10000000000000000).run (.ofHeap s.heap)
        = ⟨.ok (.error (.capacityOverflow 0x10000000000000000 1)), .ofHeap s.heap, []⟩) ∧
    ∃ (h : TwoList.Heap) (s : Client TwoList.Heap) (free live : List Entry) (heap : TwoList.Heap)
      (free' live' : List Entry) (e : Entry), s.grants.map Grant.address = [4136] ∧
      Managed.Displays s.heap free live ∧ Managed.Displays heap free' live' ∧
      (TwoList.picture TwoList.smallRegion).GotArray h s live octets 3 4115 heap live' e := by
  constructor
  · obtain ⟨h, s, g, events, created, reached, granted, run⟩ := Tagged.octets_crowdedRun
    obtain ⟨free, live, shown, allocates⟩ := arrays_exact.1 created reached
    obtain ⟨heap, free', live', e, _, shown', got⟩ := (allocates _ octets 3).got run
    refine ⟨h, s, free, live, heap, free', live', e, granted, shown, shown', got, ?_⟩
    intro body
    exact (allocates body octets 0x10000000000000000).overflow (by decide)
  · obtain ⟨h, s, g, events, created, reached, granted, run⟩ := TwoList.octets_smallRun
    obtain ⟨free, live, shown, allocates⟩ := arrays_exact.2 created reached
    obtain ⟨heap, free', live', e, _, shown', got⟩ := (allocates _ octets 3).got run
    exact ⟨h, s, free, live, heap, free', live', e, granted, shown, shown', got⟩

end RegionAlloc
