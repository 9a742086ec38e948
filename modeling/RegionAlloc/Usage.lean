import RegionAlloc.Overflow
import RegionAlloc.Word

/-!
# Usage counters and statistics

`Usage` counts what went in and out of a heap. `Survey` sums up a walk over free blocks. Both
together make `Statistics`.
-/

namespace RegionAlloc

structure Usage where
  free : Nat
  /-- The fewest bytes free since the counters were set up or the mark was reset. -/
  lowWater : Nat
  allocations : Nat
  frees : Nat
  deriving DecidableEq, Repr

namespace Usage

/-- The counters of a heap with `free` bytes that nobody has used yet. -/
def start (free : Nat) : Usage :=
  { free, lowWater := free, allocations := 0, frees := 0 }

def allocate (bytes : Nat) (overflow : Overflow) (u : Usage) : Except Fault Usage := do
  if bytes ≤ u.free then
    let free := u.free - bytes
    let allocations ← overflow.add u.allocations 1
    return { u with free, lowWater := min u.lowWater free, allocations }
  else
    throw (.overdrawn bytes u.free)

def release (bytes : Nat) (overflow : Overflow) (u : Usage) : Except Fault Usage := do
  let free ← overflow.add u.free bytes
  let frees ← overflow.add u.frees 1
  return { u with free, frees }

/-- Adds bytes that a merge of blocks set free. -/
def reclaim (bytes : Nat) (overflow : Overflow) (u : Usage) : Except Fault Usage := do
  return { u with free := ← overflow.add u.free bytes }

def resetLowWater (u : Usage) : Usage :=
  { u with lowWater := u.free }

end Usage

/-- A block on a list: where it starts, and the size its header records. -/
structure Entry where
  offset : Nat
  size : Nat
  deriving DecidableEq, Repr

/-- Number, sum and extremes of block sizes. -/
structure Survey where
  count : Nat
  total : Nat
  largest : Nat
  smallest : Option Nat
  deriving DecidableEq, Repr

namespace Survey

def empty : Survey :=
  { count := 0, total := 0, largest := 0, smallest := none }

/-- Adds one block. The total stops at the largest word. -/
def observe (s : Survey) (size : Nat) : Survey :=
  { count := s.count + 1
    total := Word.addUpTo s.total size
    largest := max s.largest size
    smallest := some (s.smallest.elim size (min · size)) }

def ofEntries (entries : List Entry) : Survey :=
  entries.foldl (fun s entry => s.observe entry.size) empty

end Survey

/-- What a heap tells about itself. -/
structure Statistics where
  availableBytes : Nat
  largestFree : Nat
  smallestFree : Nat
  freeBlocks : Nat
  lowWater : Nat
  allocations : Nat
  frees : Nat
  deriving DecidableEq, Repr

namespace Statistics

/-- Joins a survey of the free blocks with the counters. The smallest of no block is zero. -/
def ofSurvey (survey : Survey) (usage : Usage) : Statistics :=
  { availableBytes := usage.free
    largestFree := survey.largest
    smallestFree := survey.smallest.getD 0
    freeBlocks := survey.count
    lowWater := usage.lowWater
    allocations := usage.allocations
    frees := usage.frees }

/-- The figures in their fixed order, each under its label. -/
def figures (s : Statistics) : List (String × Nat) :=
  [("available_bytes", s.availableBytes), ("largest_free_block", s.largestFree),
    ("smallest_free_block", s.smallestFree), ("free_block_count", s.freeBlocks),
    ("minimum_ever_free", s.lowWater), ("successful_allocations", s.allocations),
    ("successful_frees", s.frees)]

end Statistics

end RegionAlloc
