import RegionAlloc.Allocator

/-!
# What the calls of a heap report

An attempt to allocate writes records and does nothing else besides its change of the heap: it is not
the attempt that rings the hook. Nor is it a release. `Call.OnlyLogs` says so of a call, however it
ends, and its rules follow the ways in which calls are built.
-/

namespace RegionAlloc

namespace Call

variable {σ α β : Type} {c : Call σ α} {f : α → Call σ β}

/-- All that the call reports are records, whether it ends well or not. -/
def OnlyLogs (c : Call σ α) : Prop :=
  ∀ s, ∀ event ∈ (c.run s).events, ∃ record, event = .logged record

/-- To do nothing is to log nothing. -/
theorem onlyLogs_pure (a : α) : (pure a : Call σ α).OnlyLogs :=
  fun _ _ absurd => by cases absurd

/-- A question logs nothing. -/
theorem onlyLogs_ask (question : σ → Except Fault α) : (ask question).OnlyLogs :=
  fun _ _ absurd => by cases absurd

private theorem onlyLogs_state : (state : Call σ σ).OnlyLogs :=
  fun _ _ absurd => by cases absurd

private theorem onlyLogs_update (step : σ → σ) : (update step).OnlyLogs :=
  fun _ _ absurd => by cases absurd

private theorem onlyLogs_change (plan : σ → Except Fault α) (step : α → σ → σ) :
    (change plan step).OnlyLogs := by
  intro s event member
  unfold change at member
  cases planned : plan s <;> simp [planned] at member

private theorem onlyLogs_log (record : Record) : (emit (.logged record) : Call σ Unit).OnlyLogs := by
  intro s event member
  exact ⟨record, List.mem_singleton.1 member⟩

/-- Calls that only log do so one after the other. -/
theorem OnlyLogs.bind (first : c.OnlyLogs) (second : ∀ a, (f a).OnlyLogs) :
    (c >>= f).OnlyLogs := by
  intro s event member
  have before := first s event
  cases run : c.run s with
  | mk result s' events =>
    rw [run] at before
    cases result with
    | error fault =>
      rw [run_bind_of_error run] at member
      exact before member
    | ok a =>
      rw [run_bind_of_ok run] at member
      rcases List.mem_append.1 member with early | late
      · exact before early
      · exact second a s' event late

end Call

namespace Tagged.Heap

open Call

private theorem onlyLogs_trim (anchor : Anchor) (block padded : Nat) (next : Option Nat) :
    (trim anchor block padded next).OnlyLogs := by
  unfold trim split
  apply (onlyLogs_ask _).bind
  intro found
  apply (onlyLogs_ask _).bind
  intro rest
  apply onlyLogs_state.bind
  intro h
  split
  · apply (onlyLogs_ask _).bind
    intro remainder
    apply (onlyLogs_change _ _).bind
    intro _
    apply (onlyLogs_change _ _).bind
    intro _
    apply (onlyLogs_change _ _).bind
    intro _
    exact onlyLogs_change _ _
  · exact onlyLogs_pure ()

private theorem onlyLogs_takeBlock (anchor : Anchor) (block padded : Nat) :
    (takeBlock anchor block padded).OnlyLogs := by
  unfold takeBlock
  apply (onlyLogs_ask _).bind
  intro next
  apply (onlyLogs_change _ _).bind
  intro _
  apply (onlyLogs_trim anchor block padded next).bind
  intro _
  apply (onlyLogs_ask _).bind
  intro size
  apply (onlyLogs_change _ _).bind
  intro _
  apply (onlyLogs_change _ _).bind
  intro _
  apply (onlyLogs_change _ _).bind
  intro _
  exact onlyLogs_log _

/-- The attempt of a tagged heap never calls a hook. -/
theorem onlyLogs_tryAllocate (request : Nat) : (tryAllocate request).OnlyLogs := by
  unfold tryAllocate
  apply onlyLogs_state.bind
  intro h
  by_cases nothing : request = 0
  · rw [if_pos nothing]
    exact onlyLogs_pure none
  rw [if_neg nothing]
  cases h.settings.paddedSize? request with
  | none => exact (onlyLogs_log _).bind fun _ => onlyLogs_pure none
  | some padded =>
    by_cases few : h.usage.free < padded
    · simp only [if_pos few]
      exact (onlyLogs_log _).bind fun _ => onlyLogs_pure none
    simp only [if_neg few]
    unfold allocatePadded
    apply (onlyLogs_ask _).bind
    intro (anchor, block)
    apply onlyLogs_state.bind
    intro h
    by_cases last : block = h.endMarker
    · simp only [if_pos last]
      exact (onlyLogs_log _).bind fun _ => onlyLogs_pure none
    simp only [if_neg last]
    apply (onlyLogs_takeBlock anchor block padded).bind
    intro _
    exact (onlyLogs_ask _).bind fun address => onlyLogs_pure (some address)

private theorem onlyLogs_mergeBefore (anchor : Anchor) (block : Nat) :
    (mergeBefore anchor block).OnlyLogs := by
  unfold mergeBefore
  cases anchor with
  | head => exact onlyLogs_pure block
  | block previous =>
    apply (onlyLogs_ask _).bind
    intro touches
    cases touches with
    | false => exact onlyLogs_pure block
    | true =>
      apply (onlyLogs_ask _).bind
      intro size
      exact (onlyLogs_change _ _).bind fun _ => onlyLogs_pure previous

private theorem onlyLogs_linkAfter (block next : Nat) : (linkAfter block next).OnlyLogs := by
  unfold linkAfter
  apply onlyLogs_state.bind
  intro h
  apply (onlyLogs_ask _).bind
  intro touches
  split
  · apply (onlyLogs_ask _).bind
    intro size
    apply (onlyLogs_ask _).bind
    intro after
    exact (onlyLogs_change _ _).bind fun _ => onlyLogs_change _ _
  · exact onlyLogs_change _ _

private theorem onlyLogs_insertFree (block : Nat) : (insertFree block).OnlyLogs := by
  unfold insertFree linkFrom
  apply (onlyLogs_ask _).bind
  intro (anchor, next)
  apply (onlyLogs_mergeBefore anchor block).bind
  intro merged
  apply (onlyLogs_linkAfter merged next).bind
  intro _
  split
  · exact onlyLogs_pure ()
  · exact onlyLogs_change _ _

private theorem onlyLogs_clearIfAsked (block size : Nat) : (clearIfAsked block size).OnlyLogs := by
  unfold clearIfAsked
  apply onlyLogs_state.bind
  intro h
  split
  · exact onlyLogs_change _ _
  · exact onlyLogs_pure ()

/-- Neither does its release. -/
theorem onlyLogs_release (address : Nat) : (release address).OnlyLogs := by
  unfold release
  by_cases null : address = 0
  · rw [if_pos null]
    exact onlyLogs_pure ()
  rw [if_neg null]
  apply (onlyLogs_ask _).bind
  intro block
  apply (onlyLogs_ask _).bind
  intro size
  apply (onlyLogs_change _ _).bind
  intro _
  apply (onlyLogs_clearIfAsked block size).bind
  intro _
  apply (onlyLogs_change _ _).bind
  intro _
  exact (onlyLogs_insertFree block).bind fun _ => onlyLogs_log _

end Tagged.Heap

namespace TwoList.Heap

open Call

private theorem onlyLogs_setSuccessor (chain : Chain) (previous link : Option Nat) :
    (setSuccessor chain previous link).OnlyLogs := by
  cases previous with
  | none => exact onlyLogs_update _
  | some node => exact onlyLogs_change _ _

private theorem onlyLogs_takeFound (found : Found) (request : Nat) :
    (takeFound found request).OnlyLogs := by
  unfold takeFound split unlink
  split
  · apply (onlyLogs_ask _).bind
    intro remainder
    apply (onlyLogs_ask _).bind
    intro rest
    apply (onlyLogs_change _ _).bind
    intro _
    apply (onlyLogs_ask _).bind
    intro next
    apply (onlyLogs_change _ _).bind
    intro _
    apply (onlyLogs_setSuccessor _ _ _).bind
    intro _
    apply (onlyLogs_change _ _).bind
    intro _
    exact (onlyLogs_ask _).bind fun bytes => onlyLogs_change _ _
  · apply ((onlyLogs_ask _).bind fun next => onlyLogs_setSuccessor _ _ _).bind
    intro _
    exact onlyLogs_change _ _

/-- The attempt of a two-list heap never calls a hook. -/
theorem onlyLogs_tryAllocate (request : Nat) : (tryAllocate request).OnlyLogs := by
  unfold tryAllocate
  by_cases nothing : request = 0
  · rw [if_pos nothing]
    exact onlyLogs_pure none
  rw [if_neg nothing]
  apply (onlyLogs_ask _).bind
  intro found
  cases found with
  | none => exact (onlyLogs_log _).bind fun _ => onlyLogs_pure none
  | some found =>
    apply (onlyLogs_takeFound found request).bind
    intro _
    unfold insertSorted
    apply OnlyLogs.bind
    · apply (onlyLogs_ask _).bind
      intro (previous, next)
      exact (onlyLogs_change _ _).bind fun _ => onlyLogs_setSuccessor _ _ _
    intro _
    apply (onlyLogs_ask _).bind
    intro address
    apply (onlyLogs_ask _).bind
    intro size
    exact (onlyLogs_log _).bind fun _ => onlyLogs_pure (some address)

end TwoList.Heap

end RegionAlloc
