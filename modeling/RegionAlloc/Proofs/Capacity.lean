import Mathlib.Algebra.Order.Floor.Div
import RegionAlloc.Proofs.Allotment

/-!
# How much fits into a new heap

The same request is made of a new heap again and again until it fails. Each success cuts a piece off
the one free block, from the front, and the last one may take what is left whole. So how often it
succeeds is how many pieces a block of that size is cut into (`Block.Portions`), which has a closed
form for either kind of heap.
-/

namespace RegionAlloc

open Block

/-! ## Successes in a row -/

namespace Call

variable {σ : Type} {c : Call σ (Option Nat)} {s : σ} {j k : Nat}

/-- Made again and again, the call gives memory just so many times, and then for the first time gives
none. It never faults on the way. -/
def ServesTimes (c : Call σ (Option Nat)) : Nat → σ → Prop
  | 0, s => c.Ensures s False fun place _ => place = none
  | k + 1, s => c.Ensures s False fun place s' =>
      (∃ address, place = some address) ∧ ServesTimes c k s'

private theorem ServesTimes.unique (first : c.ServesTimes j s) (second : c.ServesTimes k s) : j = k := by
  induction j generalizing k s with
  | zero =>
    cases k with
    | zero => rfl
    | succ k =>
      obtain ⟨place, s', events, run⟩ := Ensures.returns first not_false
      obtain rfl : place = none :=
        Ensures.post_of_run (P := fun place _ => place = none) first run
      obtain ⟨⟨address, given⟩, _⟩ := Ensures.post_of_run second run
      cases given
  | succ j ih =>
    obtain ⟨place, s', events, run⟩ := Ensures.returns first not_false
    obtain ⟨⟨address, given⟩, more⟩ := Ensures.post_of_run first run
    cases k with
    | zero =>
      have refused : place = none :=
        Ensures.post_of_run (P := fun place _ => place = none) second run
      rw [refused] at given
      cases given
    | succ k =>
      obtain ⟨_, rest⟩ := Ensures.post_of_run second run
      exact congrArg (· + 1) (ih more rest)

private theorem ServesTimes.iff_eq (serves : c.ServesTimes k s) : c.ServesTimes j s ↔ j = k := by
  constructor
  · intro other
    exact other.unique serves
  · intro same
    exact same ▸ serves

/-- A bare heap's hook does not change how often an allocation succeeds. -/
theorem ServesTimes.allocate [Allocator σ] {request : Nat}
    (serves : (Allocator.tryAllocate request : Call σ (Option Nat)).ServesTimes k s) :
    (Allocator.allocate request : Call σ (Option Nat)).ServesTimes k s := by
  induction k generalizing s with
  | zero => exact Client.ensures_allocate serves
  | succ k ih =>
    apply Client.ensures_allocate
    apply Ensures.mono serves id
    intro place s' served
    exact ⟨served.1, ih served.2⟩

end Call

/-! ## Cutting a block up -/

namespace Block

variable {gap slack n : Nat}

/-- Of a free block of some size, pieces of `n` bytes are cut off as long as more than `slack` bytes
are left over behind a piece. This is how many pieces come of it. A last one that leaves less over is
as large as the block. -/
inductive Portions (gap slack n : Nat) : Nat → Nat → Prop
  | none {size : Nat} (small : size < n) : Portions gap slack n size 0
  | last {size : Nat} (fits : n ≤ size) (narrow : size ≤ n + slack) : Portions gap slack n size 1
  | cut {size k : Nat} (wide : n + slack < size) (rest : Portions gap slack n (size - n - gap) k) :
      Portions gap slack n size (k + 1)

/-- Where a piece has a gap of sixteen bytes and must leave more than that, the pieces fill the block
as if it were one long piece with its gap, and the bytes left over are never enough for one more. -/
theorem portions_sixteen (asked : 0 < n) (size : Nat) :
    Portions 16 16 n size ((size + 16) / (n + 16)) := by
  induction size using Nat.strongRecOn with
  | ind size ih =>
    by_cases small : size < n
    · rw [Nat.div_eq_of_lt (by omega)]
      exact .none small
    by_cases narrow : size ≤ n + 16
    · have single : (size + 16) / (n + 16) = 1 := Nat.div_eq_of_lt_le (by omega) (by omega)
      rw [single]
      exact .last (by omega) narrow
    · have rest := ih (size - n - 16) (by omega)
      have split : size + 16 = size - n - 16 + 16 + (n + 16) := by omega
      rw [split, Nat.add_div_right _ (by omega)]
      exact .cut (by omega) rest

/-- How many pieces of `need` bytes a block of `size` bytes is cut into if there is no gap and more
than two headers must be left over. Pieces larger than that fit as often as the size allows. Of smaller
ones none is cut off any more once two headers are left over, or less. -/
def taggedPortions (size header need : Nat) : Nat :=
  if size < need then 0
  else if 2 * header < need then size / need
  else max 1 ((size - 2 * header) ⌈/⌉ need)

section Tagged

variable {size header need : Nat}

private theorem taggedPortions_last (fits : need ≤ size) (narrow : size ≤ need + 2 * header)
    (asked : 0 < need) : taggedPortions size header need = 1 := by
  rw [taggedPortions, if_neg (Nat.not_lt.2 fits)]
  by_cases large : 2 * header < need
  · rw [if_pos large]
    exact Nat.div_eq_of_lt_le (by omega) (by omega)
  · rw [if_neg large]
    apply Nat.max_eq_left
    apply (ceilDiv_le_iff_le_mul asked).2
    omega

private theorem taggedPortions_cut (wide : need + 2 * header < size) (asked : 0 < need) :
    taggedPortions size header need = taggedPortions (size - need) header need + 1 := by
  have fits : ¬ size < need := by omega
  have whole : size = size - need + need := by omega
  rw [taggedPortions, taggedPortions, if_neg fits]
  by_cases large : 2 * header < need
  · rw [if_pos large, if_pos large]
    have counted : size / need = (size - need) / need + 1 := by
      conv => lhs; rw [whole, Nat.add_div_right _ asked]
    by_cases done : size - need < need
    · rw [if_pos done, counted, Nat.div_eq_of_lt done]
    · rw [if_neg done, counted]
  · -- What is left over still has room for a piece, as two headers have.
    have more : ¬ size - need < need := by omega
    rw [if_neg large, if_neg large, if_neg more, Nat.ceilDiv_eq_add_pred_div,
      Nat.ceilDiv_eq_add_pred_div]
    have left : 1 ≤ (size - need - 2 * header + need - 1) / need :=
      Nat.div_pos (by omega) asked
    have counted : (size - 2 * header + need - 1) / need
        = (size - need - 2 * header + need - 1) / need + 1 := by
      rw [← Nat.add_div_right _ asked]
      congr 1
      omega
    rw [counted, Nat.max_eq_right left, Nat.max_eq_right (by omega)]

private theorem portions_tagged (asked : 0 < need) (size : Nat) :
    Portions 0 (2 * header) need size (taggedPortions size header need) := by
  induction size using Nat.strongRecOn with
  | ind size ih =>
    by_cases small : size < need
    · rw [taggedPortions, if_pos small]
      exact .none small
    by_cases narrow : size ≤ need + 2 * header
    · rw [taggedPortions_last (Nat.not_lt.1 small) narrow asked]
      exact .last (Nat.not_lt.1 small) narrow
    · rw [taggedPortions_cut (Nat.lt_of_not_le narrow) asked]
      exact .cut (Nat.lt_of_not_le narrow) (ih (size - need) (by omega))

end Tagged

end Block

/-! ## Cutting up the one free block of a heap -/

namespace Picture

variable {σ μ : Type} [Allocator σ] [Managed σ μ] {p : Picture σ} {heap : σ}
  {need : Nat → Nat} {slack request : Nat} {blocks pre post : List Block} {b : Block}

/-- A heap that was only allocated from: it is pictured as live blocks, as many as allocations were
counted, and the blocks `left` behind them. -/
structure Worn (p : Picture σ) (heap : σ) (pre left : List Block) : Prop where
  lies : p.Lies heap (pre ++ left)
  live : ∀ c ∈ pre, c.live = true
  tallies : Usage.Tallies (Managed.overflow heap) (Managed.usage heap) 0 pre.length

/-- There are never as many live blocks as could not be counted. -/
theorem Worn.canAllocate {left : List Block} (worn : p.Worn heap pre left)
    (small : p.stop < 0x8000000000000000) :
    (Managed.usage heap).CanAllocate (Managed.overflow heap) := by
  have most := (p.tiles worn.lies).spread.length_le
  rw [List.length_map, List.length_append] at most
  apply worn.tallies.canAllocate
  omega

/-- Nothing is given where no block is both free and large enough. -/
theorem Worn.servesTimes_zero {left : List Block} (worn : p.Worn heap pre left)
    (allots : p.Allots need slack) (small : p.stop < 0x8000000000000000)
    (nowhere : ∀ c ∈ left, ¬ (c.live = false ∧ need request ≤ c.size)) :
    (Allocator.tryAllocate request : Call σ (Option Nat)).ServesTimes 0 heap := by
  apply (allots request worn.lies).mono (fun full => full (worn.canAllocate small))
  intro place heap' allotment
  cases allotment with
  | refused _ => rfl
  | @granted front back c _ parts free fits _ _ _ _ =>
    have member : c ∈ pre ++ left := parts ▸ List.mem_append_right _ List.mem_cons_self
    rcases List.mem_append.1 member with before | behind
    · have held := worn.live c before
      rw [free] at held
      cases held
    · exact absurd ⟨free, fits⟩ (nowhere c behind)

/-- A free block behind live ones is told from them. -/
theorem eq_of_last_free {others : List Block} {c : Block} (live : ∀ d ∈ pre, d.live = true)
    (free : c.live = false) (parts : pre ++ [b] = others ++ c :: post) :
    others = pre ∧ c = b ∧ post = [] := by
  induction pre generalizing others with
  | nil =>
    cases others with
    | nil =>
      obtain ⟨same, rest⟩ := List.cons.inj parts
      exact ⟨rfl, same.symm, rest.symm⟩
    | cons d others =>
      have tail := (List.cons.inj parts).2
      exact absurd tail.symm (by simp)
  | cons d pre ih =>
    cases others with
    | nil =>
      have first : d = c := (List.cons.inj parts).1
      have held := live d List.mem_cons_self
      rw [first, free] at held
      cases held
    | cons e others =>
      obtain ⟨first, rest⟩ := List.cons.inj parts
      obtain ⟨rfl, same, nothing⟩ :=
        ih (fun x inside => live x (List.mem_cons_of_mem _ inside)) rest
      exact ⟨congrArg (· :: others) first.symm, same, nothing⟩

/-- One allocation cuts the front off the free block. -/
theorem Worn.takes (worn : p.Worn heap pre [b]) (allots : p.Allots need slack)
    (small : p.stop < 0x8000000000000000) (asked : 0 < request) (free : b.live = false)
    (fits : need request ≤ b.size) :
    (Allocator.tryAllocate request : Call σ (Option Nat)).Ensures heap False fun place heap' =>
      (∃ address, place = some address) ∧
        p.Worn heap' (pre ++ [taken slack (need request) b])
          (leftover p.gap slack (need request) b) := by
  apply (allots request worn.lies).mono (fun full => full (worn.canAllocate small))
  intro place heap' allotment
  cases allotment with
  | refused nowhere =>
    have member : b ∈ pre ++ [b] := List.mem_append_right _ List.mem_cons_self
    rcases nowhere with nothing | nowhere
    · exact absurd nothing (Nat.ne_of_gt asked)
    · exact absurd ⟨free, fits⟩ (nowhere b member)
  | granted parts free' _ _ lies overflow counted =>
    obtain ⟨rfl, rfl, rfl⟩ := eq_of_last_free worn.live free' parts
    have tallies := worn.tallies.given counted
    rw [List.append_nil, carve, List.append_cons] at lies
    rw [← overflow] at tallies
    refine ⟨⟨_, rfl⟩, lies, ?_, ?_⟩
    · intro c member
      rcases List.mem_append.1 member with before | last
      · exact worn.live c before
      · rw [List.mem_singleton.1 last]
        rfl
    · rw [List.length_append]
      exact tallies

/-- **A free block behind live ones serves as many requests as it has portions.** -/
theorem servesTimes_of_portions {size k : Nat}
    (portions : Portions p.gap slack (need request) size k) (allots : p.Allots need slack)
    (small : p.stop < 0x8000000000000000) (asked : 0 < request) (worn : p.Worn heap pre [b])
    (free : b.live = false) (sized : b.size = size) :
    (Allocator.tryAllocate request : Call σ (Option Nat)).ServesTimes k heap := by
  induction portions generalizing heap pre b with
  | none short =>
    apply worn.servesTimes_zero allots small
    intro c member both
    rw [List.mem_singleton.1 member, sized] at both
    exact absurd both.2 (Nat.not_le.2 short)
  | last fits narrow =>
    have whole : leftover p.gap slack (need request) b = [] := by
      rw [leftover, if_neg (by omega)]
    apply (worn.takes allots small asked free (sized ▸ fits)).mono id
    intro place heap' taken
    obtain ⟨given, worn'⟩ := taken
    rw [whole] at worn'
    exact ⟨given, worn'.servesTimes_zero allots small (List.forall_mem_nil _)⟩
  | cut wide rest ih =>
    have split : leftover p.gap slack (need request) b = [Block.rest p.gap (need request) b] := by
      rw [leftover, if_pos (by omega)]
    apply (worn.takes allots small asked free (by omega)).mono id
    intro place heap' taken
    obtain ⟨given, worn'⟩ := taken
    rw [split] at worn'
    exact ⟨given, ih worn' rfl (by rw [Block.rest, sized])⟩

/-- A new heap of one free block serves as many requests as the block has portions, and no more. -/
theorem capacity_of_portions {k n : Nat} (allots : p.Allots need slack)
    (small : p.stop < 0x8000000000000000) (asked : 0 < request) (lies : p.Lies heap [b])
    (free : b.live = false) (fresh : Managed.usage heap = Usage.start n)
    (portions : Portions p.gap slack (need request) b.size k) (j : Nat) :
    (Allocator.allocate request : Call σ (Option Nat)).ServesTimes j heap ↔ j = k := by
  have worn : p.Worn heap [] [b] := by
    refine ⟨lies, List.forall_mem_nil _, ?_⟩
    rw [fresh]
    exact ⟨Overflow.counts_zero _, Overflow.counts_zero _⟩
  exact (servesTimes_of_portions portions allots small asked worn free rfl).allocate.iff_eq

end Picture

/-! ## Both kinds of heap -/

/-- **How often a new heap serves the same request.** A tagged heap has one free block. Of that a
request takes what it needs: the least multiple of the alignment with room for it and for a header. In
a region of two lists each request takes its bytes and a header, as long as the region has room. -/
theorem fresh_capacity :
    (∀ {region settings overflow h}, Tagged.Heap.create region settings overflow = .ok h →
      ∃ size, h.freeBlocks = .ok [⟨h.start, size⟩] ∧
        ∀ {request need}, 0 < request → settings.Needs request need →
          ∀ k, (Allocator.allocate request : Call Tagged.Heap (Option Nat)).ServesTimes k h ↔
            k = taggedPortions size h.headerSize need) ∧
    ∀ {region : Region} (overflow : Overflow), 17 ≤ region.size →
      ∃ h, TwoList.Heap.create region overflow = .ok h ∧
        ∀ {request}, 0 < request →
          ∀ k, (Allocator.allocate request : Call TwoList.Heap (Option Nat)).ServesTimes k h ↔
            k = region.size / (request + 16) := by
  constructor
  · intro region settings overflow h created
    obtain ⟨size, laid, _, _, set⟩ := Tagged.Heap.laid_create created
    obtain ⟨n, fresh⟩ := Tagged.Heap.usage_of_create created
    refine ⟨size, laid.freeBlocks_eq, ?_⟩
    intro request need asked needs k
    have small : h.endMarker < 0x8000000000000000 := by
      have limit : h.region.size < 0x8000000000000000 := h.region.sizeLt
      have inside := laid.inside
      omega
    obtain rfl := (Tagged.Settings.needs_roundUp laid.formed.valid request).unique (set ▸ needs)
    exact Picture.capacity_of_portions (p := Tagged.picture h) (Tagged.allots h) small asked
      ⟨laid, rfl, rfl, rfl, rfl⟩ rfl fresh (portions_tagged needs.pos size) k
  · intro region overflow large
    obtain ⟨h, created, laid, base, size, _⟩ := TwoList.Heap.laid_create overflow large
    obtain ⟨_, n, fresh⟩ := TwoList.Heap.usage_of_create created
    refine ⟨h, created, ?_⟩
    intro request asked k
    have whole : region.size - 16 + 16 = region.size := by omega
    have portions := portions_sixteen asked (region.size - 16)
    rw [whole] at portions
    exact Picture.capacity_of_portions (p := TwoList.picture region) (TwoList.allots region)
      region.sizeLt asked ⟨laid, base, size⟩ rfl fresh portions k

set_option maxRecDepth 4000 in
/-- A hundred and seventy-six bytes at an odd address have room for one block of 144. One byte needs 32
of these and is served four times; the last block has 48. -/
theorem fresh_capacity_examples :
    (∃ h, Tagged.Heap.create Tagged.oddRegion Tagged.clearing .trap = .ok h ∧
      h.freeBlocks = .ok [⟨15, 144⟩] ∧
      (Allocator.allocate 1 : Call Tagged.Heap (Option Nat)).ServesTimes 4 h) ∧
    ∃ h, TwoList.Heap.create TwoList.smallRegion .trap = .ok h ∧
      (Allocator.allocate 3 : Call TwoList.Heap (Option Nat)).ServesTimes 3 h := by
  constructor
  · obtain ⟨h, created, place⟩ : ∃ h,
        Tagged.Heap.create Tagged.oddRegion Tagged.clearing .trap = .ok h ∧
        (h.start, h.headerSize, h.freeBlocks.toOption) = (15, 16, some [⟨15, 144⟩]) :=
      ⟨_, rfl, by decide +kernel⟩
    simp only [Prod.mk.injEq] at place
    obtain ⟨start, header, listed⟩ := place
    obtain ⟨size, free, serves⟩ := fresh_capacity.1 created
    rw [free, start] at listed
    obtain rfl : size = 144 := by simpa [Except.toOption] using listed
    refine ⟨h, created, start ▸ free, (serves (by decide) Tagged.clearing_needs 4).2 ?_⟩
    rw [header]
    decide
  · obtain ⟨h, created, serves⟩ :=
      fresh_capacity.2 .trap (show 17 ≤ TwoList.smallRegion.size by decide)
    exact ⟨h, created, (serves (by decide) 3).2 (by decide)⟩

end RegionAlloc
