import RegionAlloc.Proofs.Tagged.HookBodies

/-!
# Failed allocations

An allocation that gives no memory leaves the heap as it was: every way to fail is taken before
anything is written. This holds in every state of a heap, whether or not a client could lead to it.

The hook rings only after that, once, if something was asked for. Behind the lock its body finds the
heap as it was before the call and the lock free, so what the call leaves is what the body makes of
that heap (`FailsCleanly`), and a body that uses the heap as a client may ends well (`RunsBody`).
-/

namespace RegionAlloc

/-- The hooks that rang, in order. -/
def Event.rings (events : List Event) : List Hook :=
  events.filterMap fun
    | .rang hook => some hook
    | _ => none

private theorem Event.rings_append (early late : List Event) :
    rings (early ++ late) = rings early ++ rings late :=
  List.filterMap_append

private theorem Event.rings_of_logs {events : List Event}
    (logs : ∀ event ∈ events, ∃ record, event = .logged record) : rings events = [] := by
  apply List.filterMap_eq_nil_iff.2
  intro event member
  obtain ⟨record, rfl⟩ := logs event member
  rfl

/-- Of any call something is known that holds always. -/
theorem Call.ensures_true {σ α : Type} (c : Call σ α) (s : σ) :
    c.Ensures s True fun _ _ => True := by
  unfold Ensures
  cases (c.run s).result <;> trivial

/-! ## No state changes -/

namespace Tagged.Heap

/-- Memory was given once a block was taken. -/
theorem allocatePadded_unchanged (h : Heap) (padded : Nat) :
    (allocatePadded padded).Ensures h True fun place h' => place = none → h' = h := by
  unfold allocatePadded
  apply Call.Ensures.ask_bind_of_answer
  intro (anchor, block) _
  apply Call.Ensures.state_bind
  by_cases last : block = h.endMarker
  · simp only [if_pos last]
    exact Call.Ensures.emit_bind (Call.Ensures.pure fun _ => rfl)
  · simp only [if_neg last]
    apply (Call.ensures_true (takeBlock anchor block padded) h).bind
    intro _ h' _
    apply Call.Ensures.ask_bind_of_answer
    intro address _
    exact Call.Ensures.pure fun absurd => by cases absurd

/-- An attempt that gives nothing leaves a tagged heap as it is. -/
theorem tryAllocate_unchanged (h : Heap) (request : Nat) :
    (tryAllocate request).Ensures h True fun place h' => place = none → h' = h := by
  apply tryAllocate_of_padded fun _ => rfl
  intro padded _ _ _
  exact allocatePadded_unchanged h padded

end Tagged.Heap

namespace TwoList.Heap

/-- An attempt that gives nothing leaves a two-list heap as it is. -/
theorem tryAllocate_unchanged (h : Heap) (request : Nat) :
    (tryAllocate request).Ensures h True fun place h' => place = none → h' = h := by
  unfold tryAllocate
  by_cases nothing : request = 0
  · rw [if_pos nothing]
    exact Call.Ensures.pure fun _ => rfl
  rw [if_neg nothing]
  apply Call.Ensures.ask_bind_of_answer
  intro found _
  cases found with
  | none => exact Call.Ensures.emit_bind (Call.Ensures.pure fun _ => rfl)
  | some found =>
    apply (Call.ensures_true (takeFound found request) h).bind
    intro _ h₁ _
    apply (Call.ensures_true (insertSorted .used found.node) h₁).bind
    intro _ h₂ _
    apply Call.Ensures.ask_bind_of_answer
    intro address _
    apply Call.Ensures.ask_bind_of_answer
    intro size _
    exact Call.Ensures.emit_bind (Call.Ensures.pure fun absurd => by cases absurd)

end TwoList.Heap

/-! ## Failures and hooks -/

section Failures

variable {σ : Type} [Allocator σ] {heap : σ} {stop : Prop} {request : Nat}

/-- Asking the heap for so many bytes gives nothing. -/
def Refuses (heap : σ) (request : Nat) : Prop :=
  (Allocator.attempt heap request).result = .ok none

/-- How allocations from a heap fail. One that gives no memory leaves the heap as it was. The attempt
itself rings no hook. A bare heap's hook rings just if something was asked for and not given. Behind
the lock an allocation comes to what the attempt comes to, if that gives memory or nothing was asked
for. Otherwise the hook's body runs once, on the heap as it was and with the lock free, and the call
gives no memory and leaves what the body leaves. -/
structure FailsCleanly (stop : Prop) (heap : σ) : Prop where
  attempt : ∀ request, (Allocator.tryAllocate request : Call σ (Option Nat)).Ensures heap stop
    fun place heap' => place = none → heap' = heap
  bare : ∀ request, (Allocator.allocate request : Call σ (Option Nat)).Ensures heap stop
    fun place heap' => place = none → heap' = heap
  attemptRings : ∀ request, Event.rings (Allocator.attempt heap request).events = []
  bareRings : ∀ request,
    Event.rings ((Allocator.allocate request : Call σ (Option Nat)).run heap).events
      = if 0 < request ∧
          ((Allocator.allocate request : Call σ (Option Nat)).run heap).result.toOption = some none
        then (Allocator.hook heap).toList else []
  lockedServes : ∀ body request, request = 0 ∨ ¬ Refuses heap request →
    (Guarded.allocate body request).run (.ofHeap heap)
      = (Allocator.attempt heap request).behindLock false
  lockedFails : ∀ body request, 0 < request → Refuses heap request → Allocator.hook heap = none →
    ∃ logs, Event.rings logs = [] ∧ (Guarded.allocate body request).run (.ofHeap heap)
      = { result := .ok none, state := .ofHeap heap, events := logs }
  lockedRings : ∀ body request k, 0 < request → Refuses heap request →
    Allocator.hook heap = some k →
    ∃ logs, Event.rings logs = [] ∧ (Guarded.allocate body request).run (.ofHeap heap)
      = { result := ((body k).run (.ofHeap heap)).result.map fun _ => none
          state := ((body k).run (.ofHeap heap)).state
          events := logs ++ .rang k :: ((body k).run (.ofHeap heap)).events }

/-- An attempt that gives nothing has only written records. -/
theorem attempt_of_refuses (serves : Serves stop heap)
    (unchanged : (Allocator.tryAllocate request : Call σ (Option Nat)).Ensures heap True
      fun place heap' => place = none → heap' = heap) (refuses : Refuses heap request) :
    ∃ logs, Event.rings logs = [] ∧
      Allocator.attempt heap request = { result := .ok none, state := heap, events := logs } := by
  have silent := Event.rings_of_logs (serves.silent request)
  cases attempted : Allocator.attempt heap request with
  | mk result heap' events =>
    obtain rfl : result = .ok none := by
      rw [Refuses, attempted] at refuses
      exact refuses
    rw [attempted] at silent
    obtain rfl : heap' = heap := unchanged.post_of_run attempted rfl
    exact ⟨events, silent, rfl⟩

/-- Nothing rings after an attempt that came to something else than no memory. -/
theorem thenRing_of_serves {τ : Type} {o : Outcome τ (Option Nat)} {hook : τ → Option Hook}
    {body : Hook → Call τ Unit} (serves : o.result ≠ .ok none) : o.thenRing hook body = o := by
  have quiet : o.rung hook = none := by
    unfold Outcome.rung
    split
    · rename_i refused
      exact absurd refused serves
    · rfl
  rw [Outcome.thenRing, quiet]

/-- Whether anything is asked for and not given decides whether a bare heap's hook rings. -/
theorem rings_allocate (serves : Serves stop heap)
    (unchanged : (Allocator.tryAllocate request : Call σ (Option Nat)).Ensures heap True
      fun place heap' => place = none → heap' = heap) :
    Event.rings ((Allocator.allocate request : Call σ (Option Nat)).run heap).events
      = if 0 < request ∧
          ((Allocator.allocate request : Call σ (Option Nat)).run heap).result.toOption = some none
        then (Allocator.hook heap).toList else [] := by
  have silent := Event.rings_of_logs (serves.silent request)
  by_cases nothing : request = 0
  · subst nothing
    rw [Allocator.allocate, Allocator.run_orHook, if_pos rfl, if_neg (by simp)]
    exact silent
  have asked : 0 < request := Nat.pos_of_ne_zero nothing
  rw [serves.routes_agree.bare request asked]
  by_cases refuses : Refuses heap request
  · obtain ⟨logs, quiet, attempted⟩ := attempt_of_refuses serves unchanged refuses
    rw [attempted]
    cases ringing : Allocator.hook heap with
    | none => simp [Outcome.thenRing, Outcome.rung, ringing, quiet]
    | some k =>
      have rung : Event.rings (logs ++ [.rang k]) = [k] := by
        rw [Event.rings_append, quiet]
        rfl
      simpa [Outcome.thenRing, Outcome.rung, ringing, asked, Except.map, Except.toOption] using rung
  · rw [thenRing_of_serves refuses, if_neg, silent]
    intro both
    apply refuses
    unfold Refuses
    cases result : (Allocator.attempt heap request).result with
    | ok place =>
      rw [result] at both
      exact congrArg Except.ok (Option.some.inj both.2)
    | error fault =>
      rw [result] at both
      cases both.2

/-- **A heap that changes nothing when it gives nothing fails cleanly.** -/
theorem Serves.failsCleanly (serves : Serves stop heap)
    (unchanged : ∀ request, (Allocator.tryAllocate request : Call σ (Option Nat)).Ensures heap True
      fun place heap' => place = none → heap' = heap) : FailsCleanly stop heap := by
  have attempt : ∀ request, (Allocator.tryAllocate request : Call σ (Option Nat)).Ensures heap stop
      fun place heap' => place = none → heap' = heap := by
    intro request
    exact ((serves.allocates request).and (unchanged request)).mono id fun _ _ => And.right
  refine ⟨attempt, fun request => Client.ensures_allocate (attempt request),
    fun request => Event.rings_of_logs (serves.silent request),
    fun request => rings_allocate serves (unchanged request), ?_, ?_, ?_⟩
  · intro body request served
    rw [Guarded.run_allocate]
    by_cases nothing : request = 0
    · rw [if_pos nothing]
    · have given : ((Allocator.attempt heap request).behindLock false).result ≠ .ok none :=
        served.resolve_left nothing
      rw [if_neg nothing, thenRing_of_serves given]
  · intro body request asked refuses nobody
    obtain ⟨logs, quiet, attempted⟩ := attempt_of_refuses serves (unchanged request) refuses
    refine ⟨logs, quiet, ?_⟩
    rw [Guarded.run_allocate, if_neg (Nat.ne_of_gt asked), attempted]
    simp only [Outcome.behindLock, Outcome.thenRing, Outcome.rung, Guarded.hook, nobody]
    rfl
  · intro body request k asked refuses ringing
    obtain ⟨logs, quiet, attempted⟩ := attempt_of_refuses serves (unchanged request) refuses
    refine ⟨logs, quiet, ?_⟩
    rw [Guarded.run_allocate, if_neg (Nat.ne_of_gt asked), attempted]
    simp only [Outcome.behindLock, Outcome.thenRing, Outcome.rung, Guarded.hook, ringing]
    rfl

end Failures

/-! ## Hook bodies that use a tagged heap -/

namespace Tagged

variable {region : Region} {settings : Settings} {overflow : Overflow} {h : Heap}
  {s : Client Heap} {steps : List (Client.Step Heap Move)} {request : Nat} {k : Hook}

/-- What a failed allocation comes to if the hook `k` has this body. The body runs once, on the
client's heap as it was, and whatever it does, the call ends with no memory if the body ends well, and
with the body's fault if not; no other hook rings, and the lock is free. If the body's errand is fair,
it ends well, and the heap it leaves is one that the client could have come to itself. -/
structure RunsBody (h : Heap) (steps : List (Client.Step Heap Move)) (s : Client Heap) (k : Hook)
    (body : HookBody) (o : Outcome (Guarded Heap) (Option Nat)) : Prop where
  result : o.result = (body.errand.run.run s.heap).result.map fun _ => none
  state : o.state = .ofHeap (body.errand.run.run s.heap).state
  rings : Event.rings o.events = [k]
  returns : ∀ n, body.errand.Fair n s →
    steps.countP Client.Step.isCall + n < 0x10000000000000000 →
      o.result = .ok none ∧ ∃ steps' s', Client.Runs h steps' s' ∧ o.state = .ofHeap s'.heap

/-- **A failed allocation runs the hook's body once, and comes to what the body makes of the heap.** -/
theorem runs_body {stop : Prop} (created : Heap.create region settings overflow = .ok h)
    (runs : Client.Runs h steps s) (clean : FailsCleanly stop s.heap) (bodies : Hook → HookBody)
    (asked : 0 < request) (refuses : Refuses s.heap request) (ringing : s.heap.hook = some k) :
    RunsBody h steps s k (bodies k)
      ((Guarded.allocate (fun j => (bodies j).run) request).run (.ofHeap s.heap)) := by
  obtain ⟨logs, quiet, run⟩ :=
    clean.lockedRings (fun j => (bodies j).run) request k asked refuses ringing
  rw [run]
  simp only [HookBody.run_ofHeap]
  refine ⟨rfl, rfl, ?_, ?_⟩
  · have silent := Event.rings_of_logs ((bodies k).errand.onlyLogs_run s.heap)
    change Event.rings (logs ++ ([.rang k] ++ _)) = [k]
    rw [Event.rings_append, Event.rings_append, quiet]
    change [] ++ ([k] ++ Event.rings ((bodies k).errand.run.run s.heap).events) = [k]
    rw [silent]
    rfl
  · intro n fair few
    obtain ⟨result, steps', s', events, runs', ends⟩ := fair.ends_well created runs few
    rw [ends]
    exact ⟨rfl, steps', s', runs', rfl⟩

end Tagged

/-- **Failed allocations change nothing, and the hook rings once after them**, on an unlocked heap. -/
theorem failed_allocation_is_atomic :
    (∀ {region settings overflow h s}, Tagged.Heap.create region settings overflow = .ok h →
      Tagged.Reached h s → FailsCleanly (¬ s.heap.usage.CanAllocate s.heap.overflow) s.heap ∧
        ∀ count size, (Tagged.Heap.allocateZeroed count size).Ensures s.heap
          (¬ s.heap.usage.CanAllocate s.heap.overflow) fun place heap => place = none → heap = s.heap) ∧
    (∀ {region overflow h s}, TwoList.Heap.create region overflow = .ok h →
      TwoList.Reached h s → FailsCleanly (¬ s.heap.usage.CanAllocate s.heap.overflow) s.heap) ∧
    ∀ {region settings overflow h} {steps : List (Client.Step Tagged.Heap Tagged.Move)} {s k request},
      Tagged.Heap.create region settings overflow = .ok h → Client.Runs h steps s →
      s.heap.hook = some k → 0 < request → Refuses s.heap request →
      ∀ bodies : Hook → Tagged.HookBody, Tagged.RunsBody h steps s k (bodies k)
        ((Guarded.allocate (fun j => (bodies j).run) request).run (.ofHeap s.heap)) := by
  refine ⟨?_, ?_, ?_⟩
  · intro region settings overflow h s created reached
    obtain ⟨blocks, held⟩ := Tagged.held_reached created reached
    have clean := held.laid.serves.failsCleanly (Tagged.Heap.tryAllocate_unchanged s.heap)
    refine ⟨clean, ?_⟩
    intro count size
    apply Client.ensures_zeroedBy (fun _ => rfl) (clean.bare (count * size))
    · intro heap' unchanged
      exact unchanged
    · intro address heap' _ absurd
      cases absurd
  · intro region overflow h s created reached
    obtain ⟨blocks, held⟩ := TwoList.held_reached created reached
    exact held.laid.serves.failsCleanly (TwoList.Heap.tryAllocate_unchanged s.heap)
  · intro region settings overflow h steps s k request created runs ringing asked refuses bodies
    obtain ⟨blocks, held⟩ := Tagged.held_reached created runs.reachable
    have clean := held.laid.serves.failsCleanly (Tagged.Heap.tryAllocate_unchanged s.heap)
    exact Tagged.runs_body created runs clean bodies asked refuses ringing

/-- A body that releases a block to make room, and in a second visit asks for one more byte than were
ever left over. -/
def Tagged.makingRoom : Tagged.HookBody :=
  .visit (.statistics fun stats => .release 4128 (.done (stats.lowWater + 1))) fun least =>
    .visit (.tryAllocate least fun _ => .done ()) fun _ => .done

private theorem Tagged.fair_makingRoom {s : Client Heap} (held : 4128 ∈ s.grants.map Grant.address) :
    makingRoom.errand.Fair 2 s := by
  apply Errand.Fair.statistics
  intro stats _
  apply Errand.Fair.release
  · obtain ⟨g, member, address⟩ := List.mem_map.1 held
    exact ⟨trivial, Or.inr ⟨g, member, address⟩⟩
  · intro place s' events _
    apply Errand.Fair.tryAllocate
    intro found s'' events' _
    exact .done

/-- A hook is registered, and most of the heap is handed out. -/
def Tagged.crowdedRun : List Tagged.Move :=
  [.onFailure 3, .basic (.allocate 70)]

set_option maxRecDepth 4000 in
/-- After that run there is no room for a hundred bytes. -/
theorem Tagged.refuses_crowdedRun : ∃ h s, ∃ steps : List (Client.Step Heap Move),
    Heap.create oddRegion clearing .trap = .ok h ∧ Client.Runs h steps s ∧
      s.grants.map Grant.address = [4128] ∧ s.heap.hook = some 3 ∧
      Refuses s.heap 100 ∧ steps.countP Client.Step.isCall = 2 := by
  obtain ⟨h, created, goes, known⟩ : ∃ h, Heap.create oddRegion clearing .trap = .ok h ∧
      Call.Goes perform Legal (Client.start h) crowdedRun ∧
      ((Call.after perform (Client.start h) crowdedRun).grants.map Grant.address,
        (Call.after perform (Client.start h) crowdedRun).heap.hook,
        (Allocator.attempt (Call.after perform (Client.start h) crowdedRun).heap
          100).result.toOption,
        (Client.trace [] (Client.start h) crowdedRun).countP Client.Step.isCall)
        = ([4128], some 3, some none, 2) := ⟨_, rfl, by decide +kernel⟩
  have runs : Client.Runs h (Client.trace [] (Client.start h) crowdedRun)
      (Call.after perform (Client.start h) crowdedRun) := Client.Runs.start.of_goes goes
  generalize Call.after perform (Client.start h) crowdedRun = s at runs known
  generalize Client.trace [] (Client.start h) crowdedRun = steps at runs known
  simp only [Prod.mk.injEq] at known
  obtain ⟨granted, registered, result, counted⟩ := known
  obtain ⟨heap', events, refused⟩ := Call.exists_run result
  exact ⟨h, s, steps, created, runs, granted, registered, congrArg Outcome.result refused, counted⟩

/-- Both heaps in the middle of a run, the tagged one with a hook that makes room when it is called. -/
theorem failed_allocation_is_atomic_on_runs :
    (∃ (h : Tagged.Heap) (s : Client Tagged.Heap) (steps : List (Client.Step Tagged.Heap Tagged.Move))
      (o : Outcome (Guarded Tagged.Heap) (Option Nat)),
      s.grants.map Grant.address = [4128] ∧
      FailsCleanly (¬ s.heap.usage.CanAllocate s.heap.overflow) s.heap ∧
      (Guarded.allocate (fun _ => Tagged.makingRoom.run) 100).run (.ofHeap s.heap) = o ∧
      Tagged.RunsBody h steps s 3 Tagged.makingRoom o ∧ o.result = .ok none) ∧
    ∃ s : Client TwoList.Heap, s.grants.map Grant.address = [4136] ∧
      FailsCleanly (¬ s.heap.usage.CanAllocate s.heap.overflow) s.heap := by
  constructor
  · obtain ⟨h, s, steps, created, runs, granted, registered, refuses, counted⟩ :=
      Tagged.refuses_crowdedRun
    have body := failed_allocation_is_atomic.2.2 created runs registered (by decide) refuses
      fun _ => Tagged.makingRoom
    have fair : Tagged.makingRoom.errand.Fair 2 s := by
      apply Tagged.fair_makingRoom
      rw [granted]
      exact List.mem_cons_self
    have few : steps.countP Client.Step.isCall + 2 < 0x10000000000000000 := by
      rw [counted]
      decide
    exact ⟨h, s, steps, _, granted, (failed_allocation_is_atomic.1 created runs.reachable).1, rfl, body,
      (body.returns 2 fair few).1⟩
  · obtain ⟨h, s, created, reached, granted⟩ := TwoList.reached_smallRun
    exact ⟨s, Grant.map_address_of_map granted, failed_allocation_is_atomic.2.1 created reached⟩

end RegionAlloc
