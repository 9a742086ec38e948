import RegionAlloc.Layout
import RegionAlloc.Typed
import RegionAlloc.Proofs.OnlyLogs
import RegionAlloc.Proofs.Tagged.Runs
import RegionAlloc.Proofs.TwoList.Runs

/-!
# The routes to a heap

Memory can be asked of a bare heap, of the heap behind its lock, for a layout, or for an array of some
element type. Each route decides for itself when the hook rings, what a request of no bytes is, and
which boundary is too coarse. Here they are found to agree (`RoutesAgree`) in every state of either
kind of heap that a client can lead to (`allocation_routes_agree`).
-/

namespace RegionAlloc

/-! ## Outcomes -/

namespace Outcome

variable {σ α β : Type}

/-- The outcome, as one of the heap behind its lock. -/
def behindLock (held : Bool) (o : Outcome σ α) : Outcome (Guarded σ) α :=
  { result := o.result, state := ⟨o.state, held⟩, events := o.events }

/-- The outcome, with its result told in another way. -/
def map (tell : α → β) (o : Outcome σ α) : Outcome σ β :=
  { result := o.result.map tell, state := o.state, events := o.events }

variable {hook : σ → Option Hook} {body : Hook → Call σ Unit} {o : Outcome σ (Option Nat)}

/-- The hook that has to ring after an attempt to allocate, if one has to. -/
def rung (hook : σ → Option Hook) (o : Outcome σ (Option Nat)) : Option Hook :=
  match o.result with
  | .ok none => hook o.state
  | _ => none

/-- What an attempt to allocate came to, and then, if a hook has to ring, what it does by its body. -/
def thenRing (hook : σ → Option Hook) (body : Hook → Call σ Unit) (o : Outcome σ (Option Nat)) :
    Outcome σ (Option Nat) :=
  match o.rung hook with
  | none => o
  | some k =>
    let own := (body k).run o.state
    { result := own.result.map fun _ => none
      state := own.state
      events := o.events ++ .rang k :: own.events }

/-- Only the attempt gives memory. -/
theorem result_of_thenRing {address : Nat}
    (given : (o.thenRing hook body).result = .ok (some address)) : o.result = .ok (some address) := by
  unfold thenRing at given
  cases ringing : o.rung hook with
  | none =>
    rw [ringing] at given
    exact given
  | some k =>
    simp only [ringing] at given
    cases own : ((body k).run o.state).result with
    | ok _ =>
      rw [own] at given
      cases given
    | error fault =>
      rw [own] at given
      cases given

end Outcome

/-- To tell the result of a call is to map its outcome. -/
theorem Call.run_bind_pure {σ α β : Type} (c : Call σ α) (tell : α → β) (s : σ) :
    (c >>= fun a => pure (tell a)).run s = (c.run s).map tell := by
  cases run : c.run s with
  | mk result s' events =>
    cases result with
    | ok a =>
      rw [Call.run_bind_of_ok run]
      simp [Outcome.map, Except.map]
    | error fault => exact Call.run_bind_of_error run

namespace Allocator

variable {σ : Type} (hook : σ → Option Hook) (body : Hook → Call σ Unit)

private theorem run_ring (s : σ) :
    (ring hook body).run s = match hook s with
      | none => { result := .ok (), state := s, events := [] }
      | some k => { (body k).run s with events := .rang k :: ((body k).run s).events } := by
  unfold ring
  rw [Call.run_state_bind]
  cases hook s with
  | none => rfl
  | some k => rw [Call.run_emit_bind]

/-- A hook rings once after an attempt that failed, if anything was asked for. -/
theorem run_orHook (attempt : Call σ (Option Nat)) (request : Nat) (s : σ) :
    (orHook attempt hook body request).run s
      = if request = 0 then attempt.run s else (attempt.run s).thenRing hook body := by
  unfold orHook
  cases attempted : attempt.run s with
  | mk result s' events =>
    cases result with
    | error fault => simp [Call.run_bind_of_error attempted, Outcome.thenRing, Outcome.rung]
    | ok place =>
      rw [Call.run_bind_of_ok attempted]
      cases place with
      | some address => simp [Outcome.thenRing, Outcome.rung]
      | none =>
        by_cases nothing : request = 0
        · simp [nothing]
        · simp only [if_neg nothing]
          rw [Call.run_bind_pure, run_ring]
          cases ringing : hook s' with
          | none => simp [Outcome.thenRing, Outcome.rung, Outcome.map, ringing, Except.map]
          | some k => simp [Outcome.thenRing, Outcome.rung, Outcome.map, ringing]

end Allocator

/-! ## Routes -/

variable {σ : Type} [Allocator σ] {heap : σ} {body : HookBodies (Guarded σ)} {stop : Prop}

/-- What it comes to to ask a bare heap for so many bytes, without a hook. -/
def Allocator.attempt (heap : σ) (request : Nat) : Outcome σ (Option Nat) :=
  (Allocator.tryAllocate request).run heap

/-- An attempt to allocate from a heap comes to a result or is stopped. What it gives lies on the
heap's boundary, and it rings no hook. -/
structure Serves (stop : Prop) (heap : σ) : Prop where
  boundary : Word.IsPowerOfTwo (Allocator.alignment heap)
  allocates : ∀ request, (Allocator.tryAllocate request).Ensures heap stop fun place _ =>
    ∀ address, place = some address → Allocator.alignment heap ∣ address
  silent : ∀ request, ∀ event ∈ (Allocator.attempt heap request).events,
    ∃ record, event = .logged record

/-- How an array of `bytes` bytes is placed by an allocation. -/
def TypedHandle.placed (bytes : Nat) : Option Nat → Except TypedError ArrayPlace
  | none => .error (.exhausted bytes)
  | some address => .ok (.block address)

namespace Guarded

private theorem run_alignment_bind {β : Type} (f : Nat → Call (Guarded σ) β) :
    ((alignment : Call (Guarded σ) Nat) >>= f).run (ofHeap heap)
      = (f (Allocator.alignment heap)).run (ofHeap heap) := by
  have run : (alignment : Call (Guarded σ) Nat).run (ofHeap heap)
      = { result := .ok (Allocator.alignment heap), state := ofHeap heap, events := [] } := rfl
  rw [Call.run_bind_of_ok run]
  rfl

/-- Behind the lock an allocation is the bare attempt, and then one ring of the hook if that came to
nothing. -/
theorem run_allocate (request : Nat) : (allocate body request).run (ofHeap heap)
    = if request = 0 then (Allocator.attempt heap request).behindLock false
      else ((Allocator.attempt heap request).behindLock false).thenRing hook body :=
  Allocator.run_orHook hook body _ request (ofHeap heap)

private theorem run_allocateOnHeap (request : Nat) (held : Bool) :
    (allocateOnHeap body request).run ⟨heap, held⟩
      = if request = 0 then (Allocator.attempt heap request).behindLock held
        else ((Allocator.attempt heap request).behindLock held).thenRing hook body :=
  Allocator.run_orHook hook body _ request ⟨heap, held⟩

/-- A layout is allocated as its size, unless its boundary is too coarse. -/
theorem run_allocateLayout (layout : Layout) : (allocateLayout body layout).run (ofHeap heap)
    = if Allocator.alignment heap < layout.align then
        { result := .ok none, state := ofHeap heap, events := [] }
      else (allocate body layout.size).run (ofHeap heap) := by
  unfold allocateLayout
  rw [run_alignment_bind]
  by_cases coarse : Allocator.alignment heap < layout.align
  · simp only [if_pos coarse]
    rfl
  · simp only [if_neg coarse]

/-- An allocation behind the lock gives what the attempt gives. -/
theorem attempt_of_allocate {request address : Nat}
    (given : ((allocate body request).run (ofHeap heap)).result = .ok (some address)) :
    (Allocator.attempt heap request).result = .ok (some address) := by
  rw [run_allocate] at given
  by_cases nothing : request = 0
  · rw [if_pos nothing] at given
    exact given
  · rw [if_neg nothing] at given
    have attempted : ((Allocator.attempt heap request).behindLock false).result
        = .ok (some address) := Outcome.result_of_thenRing given
    exact attempted

end Guarded

/-- An array whose bytes a word counts is allocated as so many bytes, unless its boundary is too coarse
or it has none. -/
theorem TypedHandle.run_allocate (t : TypedHandle) {count : Nat}
    (small : count * t.element.size < 0x10000000000000000) :
    (t.allocate body count).run (.ofHeap heap)
      = if Allocator.alignment heap < t.element.align then
          { result := .ok (.error (.misaligned t.element.align (Allocator.alignment heap)))
            state := .ofHeap heap, events := [] }
        else if count * t.element.size = 0 then
          { result := .ok (.ok (.dangling t.element.align)), state := .ofHeap heap, events := [] }
        else ((Guarded.allocate body (count * t.element.size)).run (.ofHeap heap)).map
          (placed (count * t.element.size)) := by
  have product : Word.mul? count t.element.size = some (count * t.element.size) :=
    Word.ofNat?_eq_some.2 ⟨rfl, small⟩
  unfold allocate
  simp only [product]
  rw [Guarded.run_alignment_bind]
  by_cases coarse : Allocator.alignment heap < t.element.align
  · simp only [if_pos coarse]
    rfl
  · simp only [if_neg coarse]
    by_cases nothing : count * t.element.size = 0
    · simp only [if_pos nothing]
      rfl
    · simp only [if_neg nothing]
      rw [← Call.run_bind_pure]
      congr 2
      funext place
      cases place <;> rfl

/-- All routes to a heap agree. Each comes to what the attempt comes to, and after one that failed
rings the hook once; only what the hook then does can differ. What a route hands out lies on the
boundary that was asked for, and where that is coarser than the heap's the heap is left alone. Memory
is taken back alike by all routes. -/
structure RoutesAgree (stop : Prop) (heap : σ) : Prop extends Serves stop heap where
  bare : ∀ request, 0 < request → (Allocator.allocate request).run heap
    = (Allocator.attempt heap request).thenRing Allocator.hook fun _ => pure ()
  inPlace : ∀ body held request, 0 < request → (Guarded.allocateOnHeap body request).run ⟨heap, held⟩
    = ((Allocator.attempt heap request).behindLock held).thenRing Guarded.hook body
  locked : ∀ body request, 0 < request → (Guarded.allocate body request).run (.ofHeap heap)
    = ((Allocator.attempt heap request).behindLock false).thenRing Guarded.hook body
  layout : ∀ body layout, 0 < layout.size → layout.align ≤ Allocator.alignment heap →
    (Guarded.allocateLayout body layout).run (.ofHeap heap)
      = (Guarded.allocate body layout.size).run (.ofHeap heap)
  typed : ∀ body (t : TypedHandle) count bytes, count * t.element.size = bytes → 0 < bytes →
    bytes < 0x10000000000000000 → t.element.align ≤ Allocator.alignment heap →
      (t.allocate body count).run (.ofHeap heap)
        = ((Guarded.allocate body bytes).run (.ofHeap heap)).map (TypedHandle.placed bytes)
  coarseLayout : ∀ body layout, Allocator.alignment heap < layout.align →
    (Guarded.allocateLayout body layout).run (.ofHeap heap)
      = { result := .ok none, state := .ofHeap heap, events := [] }
  coarseElement : ∀ body (t : TypedHandle) count, count * t.element.size < 0x10000000000000000 →
    Allocator.alignment heap < t.element.align →
      (t.allocate body count).run (.ofHeap heap)
        = { result := .ok (.error (.misaligned t.element.align (Allocator.alignment heap)))
            state := .ofHeap heap, events := [] }
  released : ∀ address, (Guarded.release address).run (.ofHeap heap)
    = ((Allocator.release address : Call σ _).run heap).behindLock false
  releasedLayout : ∀ address layout, (Guarded.releaseLayout address layout).run (.ofHeap heap)
    = ((Allocator.release address : Call σ _).run heap).behindLock false
  releasedTyped : ∀ (t : TypedHandle) address count, 0 < count * t.element.size →
    (t.release address count).run (.ofHeap heap)
      = ((Allocator.release address : Call σ _).run heap).behindLock false
  alignedLayout : ∀ body layout address,
    ((Guarded.allocateLayout body layout).run (.ofHeap heap)).result = .ok (some address) →
      layout.align ∣ address
  alignedElement : ∀ body (t : TypedHandle) count place, Word.IsPowerOfTwo t.element.align →
    ((t.allocate body count).run (.ofHeap heap)).result = .ok (.ok place) →
      t.element.align ∣ place.address

/-- A finer boundary divides a coarser one. -/
theorem Word.IsPowerOfTwo.dvd_of_le {a b : Nat} (fine : Word.IsPowerOfTwo a)
    (coarse : Word.IsPowerOfTwo b) (le : a ≤ b) : a ∣ b := by
  obtain ⟨i, rfl⟩ := Word.isPowerOfTwo_iff.1 fine
  obtain ⟨j, rfl⟩ := Word.isPowerOfTwo_iff.1 coarse
  rw [Nat.one_shiftLeft, Nat.one_shiftLeft] at le ⊢
  exact Nat.pow_dvd_pow 2 ((Nat.pow_le_pow_iff_right (by decide)).1 le)

namespace Serves

variable (serves : Serves stop heap)

include serves

/-- What an attempt gives lies on every boundary that is no coarser than the heap's. -/
theorem dvd_address {request address align : Nat} (power : Word.IsPowerOfTwo align)
    (fine : align ≤ Allocator.alignment heap)
    (given : (Allocator.attempt heap request).result = .ok (some address)) : align ∣ address := by
  have allocates := serves.allocates request
  unfold Call.Ensures at allocates
  unfold Allocator.attempt at given
  rw [given] at allocates
  exact Nat.dvd_trans (power.dvd_of_le serves.boundary fine) (allocates address rfl)

private theorem dvd_layout {layout : Layout} {address : Nat}
    (given : ((Guarded.allocateLayout body layout).run (.ofHeap heap)).result = .ok (some address)) :
    layout.align ∣ address := by
  rw [Guarded.run_allocateLayout] at given
  by_cases coarse : Allocator.alignment heap < layout.align
  · rw [if_pos coarse] at given
    cases given
  · rw [if_neg coarse] at given
    exact serves.dvd_address layout.isPowerOfTwo (Nat.le_of_not_lt coarse)
      (Guarded.attempt_of_allocate given)

private theorem dvd_element {t : TypedHandle} {count : Nat} {place : ArrayPlace}
    (power : Word.IsPowerOfTwo t.element.align)
    (given : ((t.allocate body count).run (.ofHeap heap)).result = .ok (.ok place)) :
    t.element.align ∣ place.address := by
  by_cases small : count * t.element.size < 0x10000000000000000
  · rw [t.run_allocate small] at given
    by_cases coarse : Allocator.alignment heap < t.element.align
    · rw [if_pos coarse] at given
      cases given
    · rw [if_neg coarse] at given
      by_cases nothing : count * t.element.size = 0
      · rw [if_pos nothing] at given
        cases given
        exact Nat.dvd_refl _
      · rw [if_neg nothing] at given
        cases result : ((Guarded.allocate body (count * t.element.size)).run (.ofHeap heap)).result with
        | error fault => simp [Outcome.map, result, Except.map] at given
        | ok found =>
          simp only [Outcome.map, result, Except.map, Except.ok.injEq] at given
          cases found with
          | none => cases given
          | some address =>
            cases given
            exact serves.dvd_address power (Nat.le_of_not_lt coarse)
              (Guarded.attempt_of_allocate result)
  · have product : Word.mul? count t.element.size = none :=
      Word.ofNat?_eq_none.2 (Nat.le_of_not_lt small)
    unfold TypedHandle.allocate at given
    simp only [product] at given
    cases given

/-- **The routes to a heap that serves them agree.** -/
theorem routes_agree : RoutesAgree stop heap where
  toServes := serves
  bare request asked := by
    unfold Allocator.allocate
    rw [Allocator.run_orHook, if_neg (Nat.ne_of_gt asked)]
    rfl
  inPlace body held request asked := by
    rw [Guarded.run_allocateOnHeap, if_neg (Nat.ne_of_gt asked)]
  locked body request asked := by
    rw [Guarded.run_allocate, if_neg (Nat.ne_of_gt asked)]
  layout body layout _ fine := by
    rw [Guarded.run_allocateLayout, if_neg (Nat.not_lt.2 fine)]
  typed body t count bytes product asked small fine := by
    subst product
    rw [t.run_allocate small, if_neg (Nat.not_lt.2 fine), if_neg (Nat.ne_of_gt asked)]
  coarseLayout body layout coarse := by
    rw [Guarded.run_allocateLayout, if_pos coarse]
  coarseElement body t count small coarse := by
    rw [t.run_allocate small, if_pos coarse]
  released _ := rfl
  releasedLayout _ _ := rfl
  releasedTyped t address count asked := by
    have both : ¬ (count = 0 ∨ t.element.size = 0) := by
      intro nothing
      exact Nat.ne_of_gt asked (Nat.mul_eq_zero.2 nothing)
    unfold TypedHandle.release
    rw [if_neg both]
    rfl
  alignedLayout _ _ _ := serves.dvd_layout
  alignedElement _ _ _ _ := serves.dvd_element

end Serves

/-! ## Both kinds of heap -/

/-- What a tagged heap that is laid out gives lies on its boundary, and its attempts ring no hook. -/
theorem Tagged.Heap.Laid.serves {h : Tagged.Heap} {blocks : List Block} (laid : h.Laid blocks) :
    Serves (¬ h.usage.CanAllocate h.overflow) h where
  boundary := laid.formed.valid.1
  allocates request := by
    apply (Tagged.Heap.tryAllocate_ensures laid request).mono id
    intro place h' allocation address given
    cases allocation with
    | refused nowhere => cases given
    | @granted pre post b padded _ parts free padding fits first allocated =>
      obtain rfl := Option.some.inj given
      subst parts
      exact laid.dvd_address (List.mem_append_right _ List.mem_cons_self)
  silent request := Tagged.Heap.onlyLogs_tryAllocate request h

/-- The attempts of a two-list heap that is laid out ring no hook. -/
theorem TwoList.Heap.Laid.serves {h : TwoList.Heap} {blocks : List Block} (laid : h.Laid blocks) :
    Serves (¬ h.usage.CanAllocate h.overflow) h where
  boundary := (by decide : Word.IsPowerOfTwo 1)
  allocates request := by
    apply (TwoList.Heap.tryAllocate_ensures laid request).mono id
    intro place h' _ address _
    exact Nat.one_dvd address
  silent request := TwoList.Heap.onlyLogs_tryAllocate request h

/-- **All routes to a heap agree**, whichever kind of heap it is and whatever a client did with it
before. Only a full counter of allocations can stop them. -/
theorem allocation_routes_agree :
    (∀ {region settings overflow h s}, Tagged.Heap.create region settings overflow = .ok h →
      Tagged.Reached h s → RoutesAgree (¬ s.heap.usage.CanAllocate s.heap.overflow) s.heap) ∧
    ∀ {region overflow h s}, TwoList.Heap.create region overflow = .ok h →
      TwoList.Reached h s → RoutesAgree (¬ s.heap.usage.CanAllocate s.heap.overflow) s.heap := by
  constructor
  · intro region settings overflow h s created reached
    obtain ⟨blocks, held⟩ := Tagged.held_reached created reached
    exact held.laid.serves.routes_agree
  · intro region overflow h s created reached
    obtain ⟨blocks, held⟩ := TwoList.held_reached created reached
    exact held.laid.serves.routes_agree

/-- Both heaps in the middle of a run. -/
theorem allocation_routes_agree_on_runs :
    (∃ s : Client Tagged.Heap, s.grants.map Grant.address = [4128, 4160] ∧
      RoutesAgree (¬ s.heap.usage.CanAllocate s.heap.overflow) s.heap) ∧
    ∃ s : Client TwoList.Heap, s.grants.map Grant.address = [4136] ∧
      RoutesAgree (¬ s.heap.usage.CanAllocate s.heap.overflow) s.heap := by
  constructor
  · obtain ⟨h, s, created, reached, granted⟩ := Tagged.reached_mixedRun
    exact ⟨s, Grant.map_address_of_map granted, allocation_routes_agree.1 created reached⟩
  · obtain ⟨h, s, created, reached, granted⟩ := TwoList.reached_smallRun
    exact ⟨s, Grant.map_address_of_map granted, allocation_routes_agree.2 created reached⟩

end RegionAlloc
