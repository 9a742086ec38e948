import Mathlib.Algebra.Ring.Nat
import RegionAlloc.Usage

/-!
# What the counters do

A call changes the counters once, and that change can fault: more bytes may be asked for than are
free, or a sum may be too large for a word. As long as the bytes add up, only the numbers of
allocations and frees can grow too large, and only where that is trapped (`Usage.HasRoom`).
-/

namespace RegionAlloc

/-- What ends with a result has come by a result of its first part. -/
theorem exists_of_bind_eq_ok {α β : Type} {x : Except Fault α} {f : α → Except Fault β} {b : β}
    (ended : x >>= f = .ok b) : ∃ a, x = .ok a ∧ f a = .ok b := by
  cases x with
  | ok a => exact ⟨a, rfl, ended⟩
  | error fault => cases ended

namespace Overflow

variable {overflow : Overflow} {a b n m counter counter' counter'' : Nat}

private theorem add_eq_ok_iff : overflow.add a b = .ok n ↔ a + b < 0x10000000000000000 ∧ n = a + b ∨
    overflow = .wrap ∧ 0x10000000000000000 ≤ a + b ∧ n = (a + b) % 0x10000000000000000 := by
  unfold Overflow.add
  by_cases small : a + b < 0x10000000000000000
  · rw [if_pos small, Except.ok.injEq]
    omega
  · rw [if_neg small]
    cases overflow with
    | trap => simp [small]
    | wrap =>
      simp only [Except.ok.injEq, true_and]
      omega

/-- Only a sum that is no word stops an addition, and only where sums trap. -/
theorem of_add_error {fault : Fault} (stopped : overflow.add a b = .error fault) :
    fault = .addOverflow ∧ overflow = .trap ∧ 0x10000000000000000 ≤ a + b := by
  unfold Overflow.add at stopped
  by_cases small : a + b < 0x10000000000000000
  · rw [if_pos small] at stopped
    cases stopped
  · rw [if_neg small] at stopped
    cases overflow with
    | trap =>
      cases stopped
      exact ⟨rfl, rfl, Nat.not_lt.1 small⟩
    | wrap => cases stopped

/-- Raised by `n`, if by anything, the one counter becomes the other. -/
def Gains (overflow : Overflow) (n counter counter' : Nat) : Prop :=
  n = 0 ∧ counter' = counter ∨ overflow.add counter n = .ok counter'

/-- Two gains are one of their sum. -/
theorem Gains.trans (first : overflow.Gains n counter counter')
    (second : overflow.Gains m counter' counter'') : overflow.Gains (n + m) counter counter'' := by
  unfold Gains at first second ⊢
  rw [add_eq_ok_iff] at first second ⊢
  cases overflow with
  | trap =>
    simp only [reduceCtorEq, false_and, or_false] at first second ⊢
    omega
  | wrap =>
    simp only [true_and] at first second ⊢
    omega

/-- With room for it a gain is exact. -/
theorem Gains.eq_of_room (gains : overflow.Gains n counter counter')
    (room : counter + n < 0x10000000000000000) : counter' = counter + n := by
  unfold Gains at gains
  rw [add_eq_ok_iff] at gains
  omega

/-- Where sums trap a gain is exact. -/
theorem Gains.eq_of_trap (gains : Overflow.trap.Gains n counter counter') : counter' = counter + n := by
  unfold Gains at gains
  rw [add_eq_ok_iff] at gains
  simp only [reduceCtorEq, false_and, or_false] at gains
  omega

/-- The counter stands at what was counted. Where sums wrap around it does so modulo `2 ^ 64`; where
they trap, no number that is no word was ever counted. -/
def Counts : Overflow → Nat → Nat → Prop
  | .trap, n, counter => counter = n ∧ n < 0x10000000000000000
  | .wrap, n, counter => counter = n % 0x10000000000000000

/-- A counter starts at nothing. -/
theorem counts_zero (overflow : Overflow) : overflow.Counts 0 0 := by
  cases overflow with
  | trap => exact ⟨rfl, by decide⟩
  | wrap => rfl

private theorem Counts.succ (counts : overflow.Counts n counter)
    (added : overflow.add counter 1 = .ok counter') : overflow.Counts (n + 1) counter' := by
  rcases add_eq_ok_iff.1 added with ⟨small, rfl⟩ | ⟨rfl, large, rfl⟩
  · cases overflow with
    | trap =>
      obtain ⟨rfl, _⟩ := counts
      exact ⟨rfl, small⟩
    | wrap =>
      change counter = n % _ at counts
      change counter + 1 = (n + 1) % _
      omega
  · change counter = n % _ at counts
    change (counter + 1) % _ = (n + 1) % _
    omega

/-- A counter stands at one number only. -/
theorem Counts.unique (first : overflow.Counts n counter) (second : overflow.Counts n counter') :
    counter = counter' := by
  cases overflow with
  | trap => exact first.1.trans second.1.symm
  | wrap => exact first.trans second.symm

/-- A counter that is ticked, or left as it is. -/
def Ticks (overflow : Overflow) (tick : Bool) (counter counter' : Nat) : Prop :=
  if tick then overflow.add counter 1 = .ok counter' else counter' = counter

/-- A counter that ticks, or does not, goes on counting. -/
theorem Counts.tick {tick : Bool} (counts : overflow.Counts n counter)
    (ticks : overflow.Ticks tick counter counter') : overflow.Counts (n + tick.toNat) counter' := by
  cases tick with
  | true => exact counts.succ ticks
  | false =>
    obtain rfl : counter' = counter := ticks
    exact counts

end Overflow

namespace Usage

variable {u u' : Usage} {overflow : Overflow} {bytes : Nat} {fault : Fault}

/-- One more allocation and one more free can be counted. -/
def HasRoom (overflow : Overflow) (u : Usage) : Prop :=
  overflow = .wrap ∨ u.allocations + 1 < 0x10000000000000000 ∧ u.frees + 1 < 0x10000000000000000

/-- One more allocation can be counted. -/
def CanAllocate (overflow : Overflow) (u : Usage) : Prop :=
  overflow = .wrap ∨ u.allocations + 1 < 0x10000000000000000

/-- One more free can be counted. -/
def CanFree (overflow : Overflow) (u : Usage) : Prop :=
  overflow = .wrap ∨ u.frees + 1 < 0x10000000000000000

/-- Room for both counts is room for an allocation. -/
theorem HasRoom.canAllocate (room : u.HasRoom overflow) : u.CanAllocate overflow :=
  room.imp_right And.left

/-- Room for both counts is room for a free. -/
theorem HasRoom.canFree (room : u.HasRoom overflow) : u.CanFree overflow :=
  room.imp_right And.right

/-- An allocation that is counted takes its bytes from the free ones, lowers the mark to what is left
if it has to, and is one more. -/
theorem of_allocate (counted : u.allocate bytes overflow = .ok u') :
    bytes ≤ u.free ∧ u'.free = u.free - bytes ∧ u'.lowWater = min u.lowWater (u.free - bytes) ∧
      u'.frees = u.frees ∧ overflow.add u.allocations 1 = .ok u'.allocations := by
  unfold allocate at counted
  by_cases enough : bytes ≤ u.free
  · rw [if_pos enough] at counted
    obtain ⟨n, sum, counted⟩ := exists_of_bind_eq_ok counted
    obtain rfl := Except.ok.inj counted
    exact ⟨enough, rfl, rfl, rfl, sum⟩
  · rw [if_neg enough] at counted
    cases counted

/-- A release that is counted adds its bytes to the free ones and is one more. -/
theorem of_release (small : u.free + bytes < 0x10000000000000000)
    (counted : u.release bytes overflow = .ok u') :
    u'.free = u.free + bytes ∧ u'.lowWater = u.lowWater ∧ u'.allocations = u.allocations ∧
      overflow.add u.frees 1 = .ok u'.frees := by
  unfold release at counted
  obtain ⟨free, total, counted⟩ := exists_of_bind_eq_ok counted
  obtain rfl := Except.ok.inj ((Overflow.add_eq_ok small).symm.trans total)
  obtain ⟨n, sum, counted⟩ := exists_of_bind_eq_ok counted
  obtain rfl := Except.ok.inj counted
  exact ⟨rfl, rfl, rfl, sum⟩

private theorem exists_add_eq_ok {n : Nat} (room : overflow = .wrap ∨ n + 1 < 0x10000000000000000) :
    ∃ m, overflow.add n 1 = .ok m := by
  by_cases small : n + 1 < 0x10000000000000000
  · exact ⟨n + 1, Overflow.add_eq_ok small⟩
  · obtain rfl := room.resolve_right small
    refine ⟨(n + 1) % 0x10000000000000000, ?_⟩
    rw [Overflow.add, if_neg small]

/-- A counter that could be raised had room, or wraps around. -/
theorem room_of_add {n m : Nat} (sum : overflow.add n 1 = .ok m) :
    overflow = .wrap ∨ n + 1 < 0x10000000000000000 := by
  rcases Overflow.add_eq_ok_iff.1 sum with ⟨small, _⟩ | ⟨wraps, _⟩
  · exact Or.inr small
  · exact Or.inl wraps

/-- An allocation that was counted could be counted. -/
theorem canAllocate_of_allocate (counted : u.allocate bytes overflow = .ok u') :
    u.CanAllocate overflow := by
  obtain ⟨_, _, _, _, sum⟩ := of_allocate counted
  exact room_of_add sum

/-- With enough bytes free, only a full counter of allocations stops the count. -/
theorem not_canAllocate_of_allocate (enough : bytes ≤ u.free)
    (stopped : u.allocate bytes overflow = .error fault) : ¬ u.CanAllocate overflow := by
  intro room
  obtain ⟨m, sum⟩ := exists_add_eq_ok room
  rw [allocate, if_pos enough, sum] at stopped
  cases stopped

/-- With room for the bytes, only a full counter of frees stops the count. -/
theorem not_canFree_of_release (small : u.free + bytes < 0x10000000000000000)
    (stopped : u.release bytes overflow = .error fault) : ¬ u.CanFree overflow := by
  intro room
  obtain ⟨m, sum⟩ := exists_add_eq_ok room
  rw [release, Overflow.add_eq_ok small, sum] at stopped
  cases stopped

/-- So many bytes more are too many to be counted as free, and that stops a call. -/
def Overruns (overflow : Overflow) (u : Usage) (bytes : Nat) : Prop :=
  overflow = .trap ∧ 0x10000000000000000 ≤ u.free + bytes

/-- Bytes that are reclaimed are added to the free ones, and nothing else is counted. -/
theorem of_reclaim (counted : u.reclaim bytes overflow = .ok u') :
    overflow.add u.free bytes = .ok u'.free ∧ u' = { u with free := u'.free } := by
  unfold reclaim at counted
  obtain ⟨n, sum, counted⟩ := exists_of_bind_eq_ok counted
  obtain rfl := Except.ok.inj counted
  exact ⟨sum, rfl⟩

/-- Only a sum that is no word stops bytes from being reclaimed. -/
theorem overruns_of_reclaim (stopped : u.reclaim bytes overflow = .error fault) :
    fault = .addOverflow ∧ Overruns overflow u bytes := by
  unfold reclaim at stopped
  cases sum : overflow.add u.free bytes with
  | ok n =>
    rw [sum] at stopped
    cases stopped
  | error early =>
    rw [sum] at stopped
    cases stopped
    exact Overflow.of_add_error sum

/-! ## Counters over many calls -/

/-- How the counters change in a step that gave memory or not, took memory back or not, and started
the low-water mark again or not. -/
structure Booked (overflow : Overflow) (gave took reset : Bool) (u u' : Usage) : Prop where
  allocations : overflow.Ticks gave u.allocations u'.allocations
  frees : overflow.Ticks took u.frees u'.frees
  lowWater : u.lowWater ≤ u.free →
    u'.lowWater = if reset then u'.free else min u.lowWater u'.free

variable {taken live : Nat}

/-- A step that did nothing is booked as such. -/
theorem Booked.refl (overflow : Overflow) (u : Usage) : Booked overflow false false false u u where
  allocations := rfl
  frees := rfl
  lowWater mark := (Nat.min_eq_left mark).symm

/-- So is one that started the mark again. -/
theorem Booked.reset (overflow : Overflow) (u : Usage) :
    Booked overflow false false true u u.resetLowWater where
  allocations := rfl
  frees := rfl
  lowWater _ := rfl

/-- A counted allocation is booked as memory that was given. -/
theorem booked_of_allocate (counted : u.allocate bytes overflow = .ok u') :
    Booked overflow true false false u u' := by
  obtain ⟨_, free, lowWater, frees, allocations⟩ := of_allocate counted
  refine ⟨allocations, frees, fun _ => ?_⟩
  rw [lowWater, free]
  rfl

/-- How the counters change when memory is taken back. -/
structure Returned (overflow : Overflow) (u u' : Usage) : Prop where
  more : u.free ≤ u'.free
  lowWater : u'.lowWater = u.lowWater
  allocations : u'.allocations = u.allocations
  frees : overflow.add u.frees 1 = .ok u'.frees

/-- Merging may set more bytes free than were taken back. -/
theorem returned_of_release (small : u.free + bytes < 0x10000000000000000)
    (counted : u.release bytes overflow = .ok u') {free : Nat} (merged : u'.free ≤ free) :
    Returned overflow u { u' with free } := by
  obtain ⟨total, lowWater, allocations, frees⟩ := of_release small counted
  exact ⟨Nat.le_trans (total ▸ Nat.le_add_right _ _) merged, lowWater, allocations, frees⟩

/-- What was returned is booked as memory that was taken back. -/
theorem Returned.booked (returned : Returned overflow u u') :
    Booked overflow false true false u u' where
  allocations := returned.allocations
  frees := returned.frees
  lowWater mark := by
    have low : u.lowWater ≤ u'.free := Nat.le_trans mark returned.more
    exact returned.lowWater.trans (Nat.min_eq_left low).symm

/-- So many releases were counted, and so many allocations more. -/
structure Tallies (overflow : Overflow) (u : Usage) (taken live : Nat) : Prop where
  frees : overflow.Counts taken u.frees
  allocations : overflow.Counts (taken + live) u.allocations

/-- What was given can be taken back, as to the counters: no more is taken than was given. -/
theorem Tallies.canFree (tallies : Tallies overflow u taken live) (held : 0 < live) :
    u.CanFree overflow := by
  cases overflow with
  | wrap => exact Or.inl rfl
  | trap =>
    obtain ⟨frees, _⟩ := tallies.frees
    obtain ⟨_, small⟩ := tallies.allocations
    exact Or.inr (by omega)

/-- Few allocations leave room to count one more. -/
theorem Tallies.canAllocate (tallies : Tallies overflow u taken live)
    (few : taken + live + 1 < 0x10000000000000000) : u.CanAllocate overflow := by
  cases overflow with
  | wrap => exact Or.inl rfl
  | trap =>
    obtain ⟨allocations, _⟩ := tallies.allocations
    exact Or.inr (allocations ▸ few)

/-- An allocation adds to what is not taken back. -/
theorem Tallies.given (tallies : Tallies overflow u taken live)
    (counted : u.allocate bytes overflow = .ok u') : Tallies overflow u' taken (live + 1) where
  frees := by
    obtain ⟨_, _, _, frees, _⟩ := of_allocate counted
    rw [frees]
    exact tallies.frees
  allocations := by
    obtain ⟨_, _, _, _, allocations⟩ := of_allocate counted
    exact tallies.allocations.succ allocations

/-- A release moves memory from the one tally to the other. -/
theorem Tallies.returned (tallies : Tallies overflow u taken (live + 1))
    (returned : Returned overflow u u') : Tallies overflow u' (taken + 1) live where
  frees := tallies.frees.succ returned.frees
  allocations := by
    rw [returned.allocations, Nat.add_right_comm]
    exact tallies.allocations

end Usage

/-! ## Surveys -/

namespace Survey

/-- A survey counts the blocks. -/
theorem count_ofEntries (es : List Entry) : (ofEntries es).count = es.length := by
  have fold : ∀ (es : List Entry) (s : Survey),
      (es.foldl (fun s e => s.observe e.size) s).count = s.count + es.length := by
    intro es
    induction es with
    | nil => intro s; rfl
    | cons e rest ih =>
      intro s
      rw [List.foldl_cons, ih (s.observe e.size), List.length_cons]
      simp only [observe]
      omega
  simpa [ofEntries, empty] using fold es empty

/-- The total stops at the largest word. -/
theorem total_ofEntries_eq_min (es : List Entry) :
    (ofEntries es).total = min (es.map Entry.size).sum Word.nil := by
  have fold : ∀ (es : List Entry) (s : Survey), s.total ≤ Word.nil →
      (es.foldl (fun s e => s.observe e.size) s).total
        = min (s.total + (es.map Entry.size).sum) Word.nil := by
    intro es
    induction es with
    | nil =>
      intro s word
      exact (Nat.min_eq_left word).symm
    | cons e rest ih =>
      intro s word
      have first : (s.observe e.size).total = min (s.total + e.size) Word.nil := rfl
      rw [List.foldl_cons, ih (s.observe e.size) (first ▸ Nat.min_le_right _ _), first, List.map_cons,
        List.sum_cons]
      omega
  have start := fold es empty (Nat.zero_le _)
  rwa [show empty.total = 0 from rfl, Nat.zero_add] at start

/-- A survey adds up the sizes, if a word holds their sum. -/
theorem total_ofEntries {es : List Entry} (small : (es.map Entry.size).sum < 0x10000000000000000) :
    (ofEntries es).total = (es.map Entry.size).sum := by
  rw [total_ofEntries_eq_min]
  exact Nat.min_eq_left (Nat.le_pred_of_lt small)

/-- A survey tells the largest size, or nothing of no blocks. -/
theorem largest_ofEntries (es : List Entry) :
    (ofEntries es).largest = (es.map Entry.size).max?.getD 0 := by
  have fold : ∀ (es : List Entry) (s : Survey),
      (es.foldl (fun s e => s.observe e.size) s).largest = (es.map Entry.size).foldl max s.largest := by
    intro es
    induction es with
    | nil => intro s; rfl
    | cons e rest ih => intro s; exact ih (s.observe e.size)
  cases es with
  | nil => rfl
  | cons e rest =>
    rw [List.map_cons, List.max?_cons', Option.getD_some]
    change (rest.foldl (fun s e => s.observe e.size) (empty.observe e.size)).largest = _
    rw [fold rest (empty.observe e.size)]
    exact congrArg (List.foldl max · _) (Nat.zero_max e.size)

/-- The largest size is no less than a number if some size is. -/
theorem le_largest_iff {es : List Entry} {n : Nat} (positive : 0 < n) :
    n ≤ (ofEntries es).largest ↔ ∃ e ∈ es, n ≤ e.size := by
  rw [largest_ofEntries]
  cases most : (es.map Entry.size).max? with
  | none =>
    obtain rfl : es = [] := List.map_eq_nil_iff.1 (List.max?_eq_none_iff.1 most)
    constructor
    · intro small
      exact absurd small (Nat.not_le.2 positive)
    · intro found
      obtain ⟨e, member, _⟩ := found
      cases member
  | some m =>
    obtain ⟨listed, bound⟩ := List.max?_eq_some_iff.1 most
    constructor
    · intro small
      obtain ⟨e, member, size⟩ := List.mem_map.1 listed
      exact ⟨e, member, size ▸ small⟩
    · intro found
      obtain ⟨e, member, large⟩ := found
      exact Nat.le_trans large (bound e.size (List.mem_map_of_mem member))

/-- A survey tells the smallest size, if there is one. -/
theorem smallest_ofEntries (es : List Entry) :
    (ofEntries es).smallest = (es.map Entry.size).min? := by
  have fold : ∀ (es : List Entry) (s : Survey) (n : Nat), s.smallest = some n →
      (es.foldl (fun s e => s.observe e.size) s).smallest
        = some ((es.map Entry.size).foldl min n) := by
    intro es
    induction es with
    | nil => intro s n known; exact known
    | cons e rest ih =>
      intro s n known
      refine ih (s.observe e.size) (min n e.size) ?_
      rw [observe, known]
      rfl
  cases es with
  | nil => rfl
  | cons e rest =>
    rw [List.map_cons, List.min?_cons']
    exact fold rest (empty.observe e.size) e.size rfl

end Survey

end RegionAlloc
