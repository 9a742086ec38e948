import Mathlib.Order.Bounds.Basic
import RegionAlloc.Proofs.Client
import RegionAlloc.Proofs.Counting

/-!
# Runs and their books

The counters of a heap are kept as it runs. Here a run is a list of all its steps
(`Client.Runs`), and `Client.Books` says of a run what the counters must have come to: how many
steps gave memory to the client, how many took some back, and how few bytes were free between any two
of them. One step keeps the books if it changes the counters as `Client.Entered` says; so every run
does (`Client.Runs.books`).

What follows about the counters themselves does not depend on the kind of heap: after fewer than
`2 ^ 64` calls they have room for one more (`Client.Books.hasRoom`), and there is always room for
the release of memory that the client holds (`Usage.Tallies.canFree`).
-/

namespace RegionAlloc

/-- What the books must know of a client's moves. -/
class ClientMove (μ : Type) where
  /-- The address that a move gives back. -/
  released? : μ → Option Nat
  /-- Whether a move calls the heap. -/
  isCall : μ → Bool
  /-- Whether a move starts the low-water mark again. -/
  resets : μ → Bool

instance : ClientMove Move where
  released?
    | .release address => some address
    | _ => none
  isCall
    | .write _ _ _ => false
    | _ => true
  resets _ := false

/-- A kind of heap: the moves of its clients, and what the heap tells about itself. -/
class Managed (σ : Type) (μ : outParam Type) where
  /-- Makes a move. The result is the address that an allocation gave. -/
  perform : μ → Call (Client σ) (Option Nat)
  Legal : Client σ → μ → Prop
  usage : σ → Usage
  overflow : σ → Overflow
  statistics : σ → Except Fault Statistics
  isSound : σ → Except Fault Bool
  /-- The free blocks and the live ones, in address order, are these. -/
  Displays : σ → List Entry → List Entry → Prop

namespace Client

variable {σ μ : Type}

/-- A step of a run. -/
structure Step (σ μ : Type) where
  before : Client σ
  move : μ
  /-- The address that an allocation gave. -/
  result : Option Nat

section Runs

variable [Managed σ μ] {h : σ} {s : Client σ} {steps : List (Step σ μ)}

/-- The runs of legal moves on a new heap. The last step comes first. -/
inductive Runs (h : σ) : List (Step σ μ) → Client σ → Prop
  | start : Runs h [] (Client.start h)
  | step {steps : List (Step σ μ)} {s s' : Client σ} {move : μ} {result : Option Nat}
      {events : List Event} (before : Runs h steps s) (legal : Managed.Legal s move)
      (run : (Managed.perform move).run s = ⟨.ok result, s', events⟩) :
      Runs h (⟨s, move, result⟩ :: steps) s'

/-- The states that runs lead to are the reachable ones. -/
theorem Runs.reachable (runs : Runs h steps s) :
    Call.Reachable Managed.perform Managed.Legal (Client.start h) s := by
  induction runs with
  | start => exact .start
  | step _ legal run before => exact before.step legal run

/-- A client that is reached at all is reached by some run. -/
theorem exists_runs
    (reachable : Call.Reachable Managed.perform Managed.Legal (Client.start h) s) :
    ∃ steps, Runs h steps s := by
  induction reachable with
  | start => exact ⟨[], .start⟩
  | step _ legal run before =>
    obtain ⟨steps, runs⟩ := before
    exact ⟨_, runs.step legal run⟩

/-- The steps of given moves, the last one first, in front of those made before. -/
def trace : List (Step σ μ) → Client σ → List μ → List (Step σ μ)
  | steps, _, [] => steps
  | steps, s, move :: rest =>
    match (Managed.perform move).run s with
    | ⟨.ok result, s', _⟩ => trace (⟨s, move, result⟩ :: steps) s' rest
    | ⟨.error _, _, _⟩ => steps

/-- A run goes on with moves that are legal and end well. -/
theorem Runs.of_goes {moves : List μ} (runs : Runs h steps s)
    (goes : Call.Goes Managed.perform Managed.Legal s moves) :
    Runs h (trace steps s moves) (Call.after Managed.perform s moves) := by
  induction moves generalizing s steps with
  | nil => exact runs
  | cons move rest ih =>
    obtain ⟨legal, ends, goes⟩ := goes
    cases run : (Managed.perform move).run s with
    | mk result s' events =>
      rw [trace, Call.after]
      rw [run] at ends goes ⊢
      cases result with
      | ok result => exact ih (runs.step legal run) goes
      | error fault => cases ends

end Runs

namespace Step

variable [ClientMove μ]

/-- The step gave memory to the client. -/
def gave (step : Step σ μ) : Bool :=
  step.result.isSome

/-- The step took back memory that the client held. -/
def took (step : Step σ μ) : Bool :=
  (ClientMove.released? step.move).any fun address =>
    decide (address ∈ step.before.grants.map Grant.address)

def isCall (step : Step σ μ) : Bool :=
  ClientMove.isCall step.move

def resets (step : Step σ μ) : Bool :=
  ClientMove.resets step.move

end Step

variable [ClientMove μ] [Managed σ μ]

/-- The points between the steps of a run from the last reset of the low-water mark on, or from the
start. -/
def points : List (Step σ μ) → Client σ → List (Client σ)
  | [], s => [s]
  | step :: older, s => s :: if step.resets then [] else points older step.before

/-- How many bytes were free at each of those points. -/
def freeAt (steps : List (Step σ μ)) (s : Client σ) : Set Nat :=
  {n | ∃ t ∈ points steps s, (Managed.usage t.heap).free = n}

/-- The counters of the heap are what the steps of the run amount to. -/
structure Books (steps : List (Step σ μ)) (s : Client σ) : Prop where
  allocations : (Managed.overflow s.heap).Counts (steps.countP Step.gave)
    (Managed.usage s.heap).allocations
  frees : (Managed.overflow s.heap).Counts (steps.countP Step.took) (Managed.usage s.heap).frees
  balance : steps.countP Step.gave = steps.countP Step.took + s.grants.length
  calls : steps.countP Step.gave + steps.countP Step.took ≤ steps.countP Step.isCall
  lowWater : IsLeast (freeAt steps s) (Managed.usage s.heap).lowWater

/-- What a step has to change for the books to stay right. -/
structure Entered (step : Step σ μ) (s' : Client σ) : Prop where
  overflow : Managed.overflow s'.heap = Managed.overflow step.before.heap
  booked : Usage.Booked (Managed.overflow step.before.heap) step.gave step.took step.resets
    (Managed.usage step.before.heap) (Managed.usage s'.heap)
  ledger : s'.grants.length + step.took.toNat = step.before.grants.length + step.gave.toNat
  calls : step.gave.toNat + step.took.toNat ≤ step.isCall.toNat

variable {h : σ} {s s' : Client σ} {steps : List (Step σ μ)} {step : Step σ μ}

omit [Managed σ μ] in
private theorem mem_points (steps : List (Step σ μ)) (s : Client σ) : s ∈ points steps s := by
  cases steps <;> exact List.mem_cons_self

private theorem freeAt_of_reset (reset : step.resets = true) :
    freeAt (step :: steps) s = {(Managed.usage s.heap).free} := by
  ext n
  constructor
  · rintro ⟨t, member, rfl⟩
    rw [points, if_pos reset] at member
    obtain rfl := List.mem_singleton.1 member
    rfl
  · rintro rfl
    exact ⟨s, mem_points _ _, rfl⟩

private theorem freeAt_cons (kept : ¬ step.resets = true) :
    freeAt (step :: steps) s = insert (Managed.usage s.heap).free (freeAt steps step.before) := by
  ext n
  constructor
  · rintro ⟨t, member, rfl⟩
    rw [points, if_neg kept] at member
    rcases List.mem_cons.1 member with rfl | older
    · exact Or.inl rfl
    · exact Or.inr ⟨t, older, rfl⟩
  · rintro (rfl | ⟨t, older, rfl⟩)
    · exact ⟨s, mem_points _ _, rfl⟩
    · refine ⟨t, ?_, rfl⟩
      rw [points, if_neg kept]
      exact List.mem_cons_of_mem _ older

private theorem countP_cons_toNat {α : Type} (p : α → Bool) (a : α) (l : List α) :
    (a :: l).countP p = l.countP p + (p a).toNat := by
  rw [List.countP_cons]
  cases p a <;> rfl

private theorem books_start {n : Nat} (fresh : Managed.usage h = Usage.start n) :
    Books ([] : List (Step σ μ)) (Client.start h) := by
  refine ⟨?_, ?_, rfl, Nat.le_refl 0, ?_⟩
  · rw [show (Client.start h).heap = h from rfl, fresh]
    exact Overflow.counts_zero _
  · rw [show (Client.start h).heap = h from rfl, fresh]
    exact Overflow.counts_zero _
  · refine ⟨⟨Client.start h, mem_points _ _, ?_⟩, ?_⟩
    · rw [show (Client.start h).heap = h from rfl, fresh]
      rfl
    · rintro _ ⟨t, member, rfl⟩
      obtain rfl := List.mem_singleton.1 member
      rw [show (Client.start h).heap = h from rfl, fresh]
      exact Nat.le_refl n

/-- The low-water mark is never above what is free now. -/
theorem Books.lowWater_le (books : Books steps s) :
    (Managed.usage s.heap).lowWater ≤ (Managed.usage s.heap).free :=
  books.lowWater.2 ⟨s, mem_points steps s, rfl⟩

/-- One step keeps the books. -/
theorem Books.enter (books : Books steps step.before) (entered : Entered step s') :
    Books (step :: steps) s' := by
  obtain ⟨overflow, booked, ledger, calls⟩ := entered
  have mark := booked.lowWater books.lowWater_le
  refine ⟨?_, ?_, ?_, ?_, ?_⟩
  · rw [overflow, countP_cons_toNat]
    exact books.allocations.tick booked.allocations
  · rw [overflow, countP_cons_toNat]
    exact books.frees.tick booked.frees
  · have balance := books.balance
    rw [countP_cons_toNat, countP_cons_toNat]
    omega
  · have before := books.calls
    rw [countP_cons_toNat, countP_cons_toNat, countP_cons_toNat]
    omega
  · rw [mark]
    by_cases reset : step.resets = true
    · rw [if_pos reset, freeAt_of_reset reset]
      exact isLeast_singleton
    · rw [if_neg reset, freeAt_cons reset, min_comm]
      exact books.lowWater.insert _

/-- After fewer than `2 ^ 64` calls the counters have room for one more. A client that holds less
than `2 ^ 63` pieces of memory was given fewer than `2 ^ 64 - 1`. -/
theorem Books.hasRoom (books : Books steps s)
    (few : steps.countP Step.isCall < 0x10000000000000000)
    (small : s.grants.length < 0x8000000000000000) :
    (Managed.usage s.heap).HasRoom (Managed.overflow s.heap) := by
  have allocations := books.allocations
  have frees := books.frees
  have balance := books.balance
  have calls := books.calls
  cases trapped : Managed.overflow s.heap with
  | wrap => exact Or.inl rfl
  | trap =>
    rw [trapped] at allocations frees
    obtain ⟨given, _⟩ := allocations
    obtain ⟨taken, _⟩ := frees
    exact Or.inr ⟨by omega, by omega⟩

/-- Books that are right tell how many releases were counted and how many allocations are still out. -/
theorem Books.tallies (books : Books steps s) :
    Usage.Tallies (Managed.overflow s.heap) (Managed.usage s.heap) (steps.countP Step.took)
      s.grants.length where
  frees := books.frees
  allocations := books.balance ▸ books.allocations

/-- Every point of a run ends a run of its own. -/
theorem Runs.of_mem_points {t : Client σ} (runs : Runs h steps s) (member : t ∈ points steps s) :
    ∃ older, Runs h older t := by
  induction runs with
  | start =>
    obtain rfl := List.mem_singleton.1 member
    exact ⟨[], .start⟩
  | @step steps s s' move result events before legal run ih =>
    rw [points] at member
    rcases List.mem_cons.1 member with rfl | older
    · exact ⟨_, before.step legal run⟩
    · split at older
      · cases older
      · exact ih older

/-- **Every run keeps the books** if every step does. -/
theorem Runs.books {I : Client σ → Prop} {n : Nat} (runs : Runs h steps s)
    (fresh : Managed.usage h = Usage.start n) (start : I (Client.start h))
    (keeps : ∀ s move, I s → Managed.Legal s move →
      (Managed.perform move).Ensures s True fun result s' => I s' ∧ Entered ⟨s, move, result⟩ s') :
    I s ∧ Books steps s := by
  induction runs with
  | start => exact ⟨start, books_start fresh⟩
  | step _ legal run before =>
    obtain ⟨holds, books⟩ := before
    obtain ⟨kept, entered⟩ := (keeps _ _ holds legal).post_of_run run
    exact ⟨kept, books.enter entered⟩

/-! ## Entering steps -/

/-- How a call on the heap changes what the books are about. -/
structure Yields (gave took : Bool) (heap heap' : σ) : Prop where
  overflow : Managed.overflow heap' = Managed.overflow heap
  booked : Usage.Booked (Managed.overflow heap) gave took false (Managed.usage heap)
    (Managed.usage heap')

omit [ClientMove μ] in
/-- A heap that was left alone has neither given nor taken. -/
theorem Yields.refl (heap : σ) : Yields false false heap heap :=
  ⟨rfl, Usage.Booked.refl _ _⟩

variable {move : μ} {stop : Prop} {I : Client σ → Prop}

/-- An allocation that keeps `I` enters the books. -/
theorem ensures_keep_entered {c : Call σ (Option Nat)} {grant : Nat → Grant}
    (call : ClientMove.isCall move = true) (nothing : ClientMove.released? move = none)
    (kept : ClientMove.resets move = false)
    (ensures : c.Ensures s.heap stop fun place heap =>
      I { heap, grants := (place.map grant).toList ++ s.grants } ∧
        Yields place.isSome false s.heap heap) :
    (keep c grant).Ensures s stop fun result s' => I s' ∧ Entered ⟨s, move, result⟩ s' := by
  refine ensures_keep (ensures.mono id ?_)
  rintro place heap ⟨holds, yields⟩
  have took : (⟨s, move, place⟩ : Step σ μ).took = false := by
    rw [Step.took, nothing]
    rfl
  have reset : (⟨s, move, place⟩ : Step σ μ).resets = false := kept
  have called : (⟨s, move, place⟩ : Step σ μ).isCall = true := call
  refine ⟨holds, yields.overflow, ?_, ?_, ?_⟩
  · rw [took, reset]
    exact yields.booked
  · rw [took]
    cases place with
    | none => rfl
    | some address => rfl
  · rw [took, called]
    exact Bool.toNat_le _

/-- A release that keeps `I` enters the books. -/
theorem ensures_giveBack_entered [Allocator σ] {address : Nat}
    (call : ClientMove.isCall move = true) (released : ClientMove.released? move = some address)
    (kept : ClientMove.resets move = false) (nodup : (s.grants.map Grant.address).Nodup)
    (ensures : (Allocator.release address : Call σ Unit).Ensures s.heap stop fun _ heap =>
      I { heap, grants := s.grants.filter fun g => g.address != address } ∧
        Yields false (decide (address ∈ s.grants.map Grant.address)) s.heap heap) :
    (giveBack address).Ensures s stop fun result s' => I s' ∧ Entered ⟨s, move, result⟩ s' := by
  refine ensures_giveBack (ensures.mono id ?_)
  rintro _ heap ⟨holds, yields⟩
  have took : (⟨s, move, none⟩ : Step σ μ).took
      = decide (address ∈ s.grants.map Grant.address) := by
    rw [Step.took, released]
    rfl
  have reset : (⟨s, move, none⟩ : Step σ μ).resets = false := kept
  have called : (⟨s, move, none⟩ : Step σ μ).isCall = true := call
  refine ⟨holds, yields.overflow, ?_, ?_, ?_⟩
  · rw [took, reset]
    exact yields.booked
  · rw [took]
    exact Grant.length_filter_address nodup address
  · rw [took, called]
    change 0 + _ ≤ 1
    rw [Nat.zero_add]
    exact Bool.toNat_le _

/-- A write of the client that keeps `I` leaves the books as they are. -/
theorem ensures_write_entered [HasRegion σ] {address distance : Nat} {data : List UInt8}
    (nothing : ClientMove.released? move = none) (kept : ClientMove.resets move = false)
    (holds : I
      { heap := HasRegion.modifyRegion s.heap fun region => region.writeAt (address + distance) data
        grants := s.grants.map fun g => if g.address = address then g.store distance data else g })
    (yields : Yields false false s.heap
      (HasRegion.modifyRegion s.heap fun region => region.writeAt (address + distance) data)) :
    (write address distance data).Ensures s stop fun result s' =>
      I s' ∧ Entered ⟨s, move, result⟩ s' := by
  have took : (⟨s, move, none⟩ : Step σ μ).took = false := by
    rw [Step.took, nothing]
    rfl
  have reset : (⟨s, move, none⟩ : Step σ μ).resets = false := kept
  refine ensures_write ⟨holds, yields.overflow, ?_, ?_, ?_⟩
  · rw [took, reset]
    exact yields.booked
  · rw [took]
    exact List.length_map _
  · rw [took]
    exact Nat.zero_le _

/-! ## Heaps whose runs are kept in order -/

/-- At a point of a run the heap shows its blocks, counts its free bytes, finds nothing wrong with
itself, and can go on. -/
structure Kept (s : Client σ) (free live : List Entry) : Prop where
  displays : Managed.Displays s.heap free live
  counted : (Managed.usage s.heap).free = (free.map Entry.size).sum
  statistics : Managed.statistics s.heap = .ok (.ofSurvey (.ofEntries free) (Managed.usage s.heap))
  sound : Managed.isSound s.heap = .ok true
  few : s.grants.length < 0x8000000000000000
  ends : ∀ move, Managed.Legal s move → (Managed.perform move).Ensures s
    (¬ (Managed.usage s.heap).HasRoom (Managed.overflow s.heap)) fun _ _ => True

/-- At every point of every run the heap is in order, and so are its books. -/
def RunsInOrder (h : σ) : Prop :=
  ∀ (steps : List (Step σ μ)) (s : Client σ), Runs h steps s →
    (∃ free live, Kept s free live) ∧ Books steps s

/-- A client was given all that it holds, so one more release can be counted. -/
theorem RunsInOrder.canFree (order : RunsInOrder h)
    (reached : Call.Reachable Managed.perform Managed.Legal (Client.start h) s) {g : Grant}
    (held : g ∈ s.grants) : (Managed.usage s.heap).CanFree (Managed.overflow s.heap) := by
  obtain ⟨steps, runs⟩ := exists_runs reached
  obtain ⟨_, books⟩ := order steps s runs
  exact books.tallies.canFree (List.length_pos_of_mem held)

end Client

end RegionAlloc
