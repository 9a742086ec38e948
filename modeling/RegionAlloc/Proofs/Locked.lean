import RegionAlloc.Proofs.FailedAllocation

/-!
# Calls behind the lock

A call behind the lock ensures what the call on the heap does (`Guarded.ensures_locked`). A locked
allocation that the heap does not refuse is one attempt (`Guarded.ensures_allocate`); of one that it
refuses, `RefusedAs` says what is left to the hook. From there the routes for arrays of an element
type are followed, both ways.
-/

namespace RegionAlloc

/-- What was told in another way ensures the same. -/
theorem Call.Ensures.of_run_map {σ α β : Type} {s : σ} {stop : Prop} {c : Call σ α} {d : Call σ β}
    {tell : α → β} {P : β → σ → Prop} (run : d.run s = (c.run s).map tell)
    (ensures : c.Ensures s stop fun a s' => P (tell a) s') : d.Ensures s stop P := by
  unfold Ensures at ensures ⊢
  rw [run]
  cases first : c.run s with
  | mk result s' events =>
    rw [first] at ensures
    cases result <;> exact ensures

/-- The request is refused by the heap, and this is the answer. The hook runs after that, if there is
one, once, on the heap as it was and with the lock free. -/
structure RefusedAs {σ α : Type} [Allocator σ] (body : HookBodies (Guarded σ)) (heap : σ) (answer : α)
    (o : Outcome (Guarded σ) α) : Prop where
  alone : Allocator.hook heap = none → ∃ logs, Event.rings logs = [] ∧
    o = { result := .ok answer, state := .ofHeap heap, events := logs }
  hooked : ∀ k, Allocator.hook heap = some k → ∃ logs, Event.rings logs = [] ∧
    o = { result := ((body k).run (.ofHeap heap)).result.map fun _ => answer
          state := ((body k).run (.ofHeap heap)).state
          events := logs ++ .rang k :: ((body k).run (.ofHeap heap)).events }

section Refusals

variable {σ α β : Type} [Allocator σ] {heap : σ} {body : HookBodies (Guarded σ)} {stop : Prop}
  {request : Nat} {a : α} {b : β}

/-- Whatever the hook does, there is no other answer. -/
theorem RefusedAs.eq_of_result {o : Outcome (Guarded σ) α} {answer : α}
    (refused : RefusedAs body heap a o) (result : o.result = .ok answer) : answer = a := by
  cases ringing : Allocator.hook heap with
  | none =>
    obtain ⟨logs, _, run⟩ := refused.alone ringing
    rw [run] at result
    exact (Except.ok.inj result).symm
  | some k =>
    obtain ⟨logs, _, run⟩ := refused.hooked k ringing
    rw [run] at result
    cases own : ((body k).run (.ofHeap heap)).result with
    | ok _ =>
      rw [own] at result
      exact (Except.ok.inj result).symm
    | error fault =>
      rw [own] at result
      cases result

/-- What only tells the answer in another way is refused as well. -/
theorem RefusedAs.bind {c : Call (Guarded σ) α} {f : α → Call (Guarded σ) β}
    (refused : RefusedAs body heap a (c.run (.ofHeap heap))) (told : f a = pure b) :
    RefusedAs body heap b ((c >>= f).run (.ofHeap heap)) where
  alone ringing := by
    obtain ⟨logs, quiet, run⟩ := refused.alone ringing
    refine ⟨logs, quiet, ?_⟩
    rw [Call.run_bind_of_ok run, told, Call.run_pure, List.append_nil]
  hooked k ringing := by
    obtain ⟨logs, quiet, run⟩ := refused.hooked k ringing
    refine ⟨logs, quiet, ?_⟩
    cases own : (body k).run (.ofHeap heap) with
    | mk result state events =>
      rw [own] at run
      cases result with
      | ok _ =>
        rw [Call.run_bind_of_ok run, told, Call.run_pure, List.append_nil]
        rfl
      | error fault => exact Call.run_bind_of_error run

/-- A request that the heap refuses fails behind the lock as it should: the heap is as it was, and the
hook is called once. -/
theorem FailsCleanly.refusedAs (clean : FailsCleanly stop heap) (asked : 0 < request)
    (refuses : Refuses heap request) :
    RefusedAs body heap none ((Guarded.allocate body request).run (.ofHeap heap)) where
  alone := clean.lockedFails body request asked refuses
  hooked k := clean.lockedRings body request k asked refuses

end Refusals

namespace Guarded

variable {σ α : Type} {heap : σ} {stop : Prop}

/-- A call behind the lock ensures what it does on the heap, and leaves the lock free. -/
theorem ensures_locked {c : Call σ α} {P : α → Guarded σ → Prop}
    (ensures : c.Ensures heap stop fun a heap' => P a (.ofHeap heap')) :
    (locked c).Ensures (.ofHeap heap) stop P := by
  unfold Call.Ensures at ensures ⊢
  rw [run_locked]
  exact ensures

variable [Allocator σ] {body : HookBodies (Guarded σ)} {request : Nat}

/-- What the heap does not refuse is allocated in one attempt. -/
theorem ensures_allocate {P : Option Nat → Guarded σ → Prop} {stop' : Prop}
    (clean : FailsCleanly stop' heap) (goes : ¬ Refuses heap request)
    (ensures : (Allocator.tryAllocate request : Call σ (Option Nat)).Ensures heap stop
      fun place heap' => P place (.ofHeap heap')) :
    (allocate body request).Ensures (.ofHeap heap) stop P := by
  unfold Call.Ensures at ensures ⊢
  rw [clean.lockedServes body request (Or.inr goes)]
  exact ensures

/-- A layout whose boundary the heap keeps is allocated as its size. -/
theorem ensures_allocateLayout {layout : Layout} {P : Option Nat → Guarded σ → Prop}
    (fine : layout.align ≤ Allocator.alignment heap)
    (ensures : (allocate body layout.size).Ensures (.ofHeap heap) stop P) :
    (allocateLayout body layout).Ensures (.ofHeap heap) stop P := by
  unfold Call.Ensures at ensures ⊢
  rw [run_allocateLayout, if_neg (Nat.not_lt.2 fine)]
  exact ensures

end Guarded

namespace TypedHandle

variable {σ : Type} [Allocator σ] {heap : σ} {body : HookBodies (Guarded σ)} {stop : Prop}
  (t : TypedHandle) {count : Nat}

/-- An array that has more bytes than a word counts is refused before the heap is asked. -/
theorem run_allocate_of_overflow (large : 0x10000000000000000 ≤ count * t.element.size)
    (g : Guarded σ) : (t.allocate body count).run g
      = ⟨.ok (.error (.capacityOverflow count t.element.size)), g, []⟩ := by
  have product : Word.mul? count t.element.size = none := Word.ofNat?_eq_none.2 large
  unfold allocate
  rw [product]
  rfl

/-- An array without bytes is given back without a call. -/
theorem run_release_of_empty (nothing : count * t.element.size = 0) (address : Nat) (g : Guarded σ) :
    (t.release address count).run g = ⟨.ok (), g, []⟩ := by
  unfold release
  rw [if_pos (Nat.mul_eq_zero.1 nothing)]
  rfl

/-- An array that has bytes is released as its block. -/
theorem ensures_release {address : Nat} {P : Unit → Guarded σ → Prop}
    (asked : 0 < count * t.element.size)
    (ensures : (Allocator.release address : Call σ Unit).Ensures heap stop
      fun a heap' => P a (.ofHeap heap')) :
    (t.release address count).Ensures (.ofHeap heap) stop P := by
  have both : ¬ (count = 0 ∨ t.element.size = 0) := mt Nat.mul_eq_zero.2 (Nat.ne_of_gt asked)
  unfold release
  rw [if_neg both]
  exact Guarded.ensures_locked ensures

end TypedHandle

end RegionAlloc
