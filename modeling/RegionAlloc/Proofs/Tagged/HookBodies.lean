import RegionAlloc.Proofs.EndsWell
import RegionAlloc.Proofs.Routes

/-!
# Hook bodies that use the heap

The body of a failure hook may use the heap it was rung for. What it does then is an errand: a program
of allocations, releases and looks at the statistics, where each step may depend on what the steps
before it came to (`Errand`). A body goes to the heap once or several times and holds the lock
throughout each visit (`HookBody`).

As the lock is free when the hook rings, a body does to the heap just what its errand does, and leaves
the lock free (`HookBody.run_ofHeap`). An errand that gives back only what is the client's is a piece
of the client's own run, so it ends well (`Errand.Fair.ends_well`).
-/

namespace RegionAlloc

/-! ## Runs behind the lock and runs of clients -/

section Runs

variable {σ α β : Type} {s s' : Client σ} {heap : σ} {events : List Event}

/-- A call behind a lock that is free runs on the heap. -/
theorem Guarded.run_locked (c : Call σ α) (heap : σ) :
    (locked c).run (ofHeap heap) = (c.run heap).behindLock false :=
  rfl

/-- Calls that come to the same in front of the lock and behind it do so one after the other. -/
theorem Call.run_bind_behindLock {c : Call σ α} {f : α → Call σ β} {d : Call (Guarded σ) α}
    {g : α → Call (Guarded σ) β} (first : d.run (.ofHeap heap) = (c.run heap).behindLock false)
    (second : ∀ a heap', (g a).run (.ofHeap heap') = ((f a).run heap').behindLock false) :
    (d >>= g).run (.ofHeap heap) = ((c >>= f).run heap).behindLock false := by
  cases run : c.run heap with
  | mk result heap' events =>
    rw [run] at first
    cases result with
    | error fault =>
      rw [Call.run_bind_of_error run]
      exact Call.run_bind_of_error first
    | ok a =>
      rw [Call.run_bind_of_ok run]
      refine (Call.run_bind_of_ok first).trans ?_
      have next := second a heap'
      change (g a).run ⟨heap', false⟩ = _ at next
      rw [next]
      rfl

private theorem Client.exists_of_run_onHeap {c : Call σ α} {a : α}
    (run : (onHeap c).run s = ⟨.ok a, s', events⟩) :
    c.run s.heap = ⟨.ok a, s'.heap, events⟩ := by
  unfold onHeap at run
  cases called : c.run s.heap with
  | mk result heap events' =>
    simp only [called] at run
    cases run
    rfl

/-- What a client keeps is what the heap gave. -/
theorem Client.run_of_keep {c : Call σ (Option Nat)} {grant : Nat → Grant} {place : Option Nat}
    (run : (keep c grant).run s = ⟨.ok place, s', events⟩) :
    ∃ events', c.run s.heap = ⟨.ok place, s'.heap, events'⟩ := by
  obtain ⟨found, t, early, late, given, kept⟩ := Call.exists_of_run_bind run
  have served := exists_of_run_onHeap given
  cases found <;> cases kept <;> exact ⟨early, served⟩

/-- What a client gives back the heap takes. -/
theorem Client.run_of_giveBack [Allocator σ] {address : Nat} {place : Option Nat}
    (run : (giveBack address).run s = ⟨.ok place, s', events⟩) :
    ∃ events', (Allocator.release address : Call σ Unit).run s.heap = ⟨.ok (), s'.heap, events'⟩ := by
  obtain ⟨_, t, early, late, taken, struck⟩ := Call.exists_of_run_bind run
  have cleared := exists_of_run_onHeap taken
  cases struck
  exact ⟨early, cleared⟩

end Runs

namespace Tagged

/-! ## Errands -/

/-- What the body of a hook can do with a heap while it holds the lock. -/
inductive Errand (α : Type) where
  | done (result : α)
  | tryAllocate (request : Nat) (next : Option Nat → Errand α)
  | release (address : Nat) (next : Errand α)
  | statistics (next : Statistics → Errand α)

namespace Errand

variable {α β : Type}

def run : Errand α → Call Heap α
  | .done result => pure result
  | .tryAllocate request next => do run (next (← Heap.tryAllocate request))
  | .release address next => do
    Heap.release address
    run next
  | .statistics next => do run (next (← .ask Heap.statistics))

/-- Runs a second errand after the first, with its result. -/
def andThen : Errand α → (α → Errand β) → Errand β
  | .done result, f => f result
  | .tryAllocate request next, f => .tryAllocate request fun place => andThen (next place) f
  | .release address next, f => .release address (andThen next f)
  | .statistics next, f => .statistics fun stats => andThen (next stats) f

private theorem run_andThen (errand : Errand α) (f : α → Errand β) :
    (errand.andThen f).run = errand.run >>= fun a => (f a).run := by
  induction errand with
  | done result => rw [andThen, run, pure_bind]
  | tryAllocate request next ih =>
    rw [andThen, run, run, bind_assoc]
    congr 1
    funext place
    exact ih place
  | release address next ih =>
    rw [andThen, run, run, bind_assoc]
    congr 1
    funext _
    exact ih
  | statistics next ih =>
    rw [andThen, run, run, bind_assoc]
    congr 1
    funext stats
    exact ih stats

/-- An errand rings no hook. -/
theorem onlyLogs_run (errand : Errand α) : errand.run.OnlyLogs := by
  induction errand with
  | done result => exact Call.onlyLogs_pure result
  | tryAllocate request next ih => exact (Heap.onlyLogs_tryAllocate request).bind ih
  | release address next ih => exact (Heap.onlyLogs_release address).bind fun _ => ih
  | statistics next ih => exact (Call.onlyLogs_ask _).bind ih

/-- The errand makes at most so many calls, and gives back only what is the client's by then or the
null address. -/
inductive Fair : Nat → Client Heap → Errand α → Prop
  | done {n : Nat} {s : Client Heap} {result : α} : Fair n s (.done result)
  | tryAllocate {n : Nat} {s : Client Heap} {request : Nat} {next : Option Nat → Errand α}
      (goes_on : ∀ place s' events,
        (perform (.basic (.tryAllocate request))).run s = ⟨.ok place, s', events⟩ →
          Fair n s' (next place)) :
      Fair (n + 1) s (.tryAllocate request next)
  | release {n : Nat} {s : Client Heap} {address : Nat} {next : Errand α}
      (legal : Legal s (.basic (.release address)))
      (goes_on : ∀ place s' events,
        (perform (.basic (.release address))).run s = ⟨.ok place, s', events⟩ → Fair n s' next) :
      Fair (n + 1) s (.release address next)
  | statistics {n : Nat} {s : Client Heap} {next : Statistics → Errand α}
      (goes_on : ∀ stats, s.heap.statistics = .ok stats → Fair n s (next stats)) :
      Fair n s (.statistics next)

variable {region : Region} {settings : Settings} {overflow : Overflow} {h : Heap}
  {s : Client Heap} {steps : List (Client.Step Heap Move)} {errand : Errand α} {n : Nat}

/-- A call that was made is one of those that there was room for. -/
theorem few_of_call {step : Client.Step Heap Move} {bound : Nat} (call : step.isCall = true)
    (few : steps.countP Client.Step.isCall + (n + 1) < bound) :
    (step :: steps).countP Client.Step.isCall + n < bound := by
  rw [List.countP_cons_of_pos call]
  omega

/-- **A fair errand ends well.** Its calls are a piece of the client's run. -/
theorem Fair.ends_well (created : Heap.create region settings overflow = .ok h)
    (fair : Fair n s errand) (runs : Client.Runs h steps s)
    (few : steps.countP Client.Step.isCall + n < 0x10000000000000000) :
    ∃ result steps' s' events, Client.Runs h steps' s' ∧
      errand.run.run s.heap = ⟨.ok result, s'.heap, events⟩ := by
  have never := (runs_in_order created).never_faults
  induction fair generalizing steps with
  | @done n s result => exact ⟨result, steps, s, [], runs, rfl⟩
  | @tryAllocate n s request next goes_on ih =>
    have legal : Legal s (.basic (.tryAllocate request)) := ⟨trivial, trivial⟩
    obtain ⟨place, s', events, made⟩ := (never steps s runs (by omega)).moves _ legal
    obtain ⟨events', given⟩ := Client.run_of_keep made
    have longer := runs.step legal made
    obtain ⟨result, steps', s'', events'', runs', rest⟩ :=
      ih place s' events made longer (few_of_call rfl few)
    refine ⟨result, steps', s'', events' ++ events'', runs', ?_⟩
    rw [run]
    refine (Call.run_bind_of_ok given).trans ?_
    rw [rest]
  | @release n s address next legal goes_on ih =>
    obtain ⟨place, s', events, made⟩ := (never steps s runs (by omega)).moves _ legal
    obtain ⟨events', taken⟩ := Client.run_of_giveBack made
    have longer := runs.step legal made
    obtain ⟨result, steps', s'', events'', runs', rest⟩ :=
      ih place s' events made longer (few_of_call rfl few)
    refine ⟨result, steps', s'', events' ++ events'', runs', ?_⟩
    rw [run]
    refine (Call.run_bind_of_ok taken).trans ?_
    rw [rest]
  | @statistics n s next goes_on ih =>
    obtain ⟨stats, told⟩ := (never steps s runs (by omega)).statistics
    obtain ⟨result, steps', s', events, runs', rest⟩ := ih stats told runs few
    refine ⟨result, steps', s', events, runs', ?_⟩
    rw [run]
    exact (Call.run_ask_bind told).trans rest

end Errand

/-! ## Bodies -/

/-- The body of a hook: it visits the heap, each time with the lock held, until it is done. -/
inductive HookBody : Type 1 where
  | done
  | visit {α : Type} (errand : Errand α) (next : α → HookBody)

namespace HookBody

/-- The body, run on a heap behind its lock. -/
def run : HookBody → Call (Guarded Heap) Unit
  | .done => pure ()
  | .visit errand next => do run (next (← Guarded.locked errand.run))

/-- What the body does to the heap, all its visits put together. -/
def errand : HookBody → Errand Unit
  | .done => .done ()
  | .visit first next => first.andThen fun a => errand (next a)

/-- **A body finds the lock free and leaves it free**, and does to the heap what its errand does. -/
theorem run_ofHeap (body : HookBody) (heap : Heap) :
    body.run.run (.ofHeap heap) = (body.errand.run.run heap).behindLock false := by
  induction body generalizing heap with
  | done => rfl
  | visit first next ih =>
    rw [run, errand, Errand.run_andThen]
    apply Call.run_bind_behindLock (Guarded.run_locked _ heap)
    intro a heap'
    exact ih a heap'

end HookBody

end Tagged

end RegionAlloc
