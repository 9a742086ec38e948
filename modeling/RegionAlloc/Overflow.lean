import RegionAlloc.Fault

/-!
# Sums and differences of words

A sum that is no word and a difference below zero are treated as the machine is set up to: the call
stops, or the result wraps around. Everything the allocators add or subtract without a check of
their own goes through `Overflow.add` and `Overflow.sub`, but for sums that are words anyhow. When a
heap is laid out these are sums of settings and of offsets in its region. When its blocks are
counted one by one, for statistics or an audit, it is their number: a walk that ends comes by fewer
blocks than there are words (`Tagged.Heap.count_lt_of_survey`, `Tagged.Heap.count_lt_of_tiledFrom`,
`TwoList.Heap.length_entries_lt`). So a run under `trap` without a fault is a run in which no sum or
difference left the range of words.
-/

namespace RegionAlloc

/-- What happens when a sum or a difference is no word. -/
inductive Overflow where
  | trap
  /-- The result is taken modulo `2 ^ 64`. -/
  | wrap
  deriving DecidableEq, Repr

namespace Overflow

def add (overflow : Overflow) (a b : Nat) : Except Fault Nat :=
  if a + b < 0x10000000000000000 then
    .ok (a + b)
  else
    match overflow with
    | .trap => .error .addOverflow
    | .wrap => .ok ((a + b) % 0x10000000000000000)

def sub (overflow : Overflow) (a b : Nat) : Except Fault Nat :=
  if b ≤ a then
    .ok (a - b)
  else
    match overflow with
    | .trap => .error .subOverflow
    | .wrap => .ok ((a + 0x10000000000000000 - b) % 0x10000000000000000)

/-- A sum that is a word is the sum, in both modes. -/
theorem add_eq_ok {overflow : Overflow} {a b : Nat} (h : a + b < 0x10000000000000000) :
    overflow.add a b = .ok (a + b) :=
  if_pos h

/-- A difference that is not below zero is the difference, in both modes. -/
theorem sub_eq_ok {overflow : Overflow} {a b : Nat} (h : b ≤ a) :
    overflow.sub a b = .ok (a - b) :=
  if_pos h

end Overflow

end RegionAlloc
