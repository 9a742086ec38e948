import Mathlib.Algebra.Ring.Nat
import Mathlib.Data.List.Chain
import Mathlib.Data.List.Perm.Subperm
import RegionAlloc.Usage

/-!
# Blocks as they lie in a region

Both kinds of heap cut a range of their region into blocks that lie one behind the other. A list of
blocks in address order, each with the size that its header records and with whether it was handed
out, is the picture of a heap that the theorems about runs speak of. Here are the lists alone:
what it is to tile a range (`Block.Tiles`), which blocks are on which list (`Block.roster`), and
what merging free blocks that touch makes of a list (`Block.coalesce`).
-/

namespace RegionAlloc

/-- A block as it lies in a region, and whether it was handed out and not taken back. -/
structure Block extends Entry where
  live : Bool
  deriving DecidableEq, Repr

namespace Block

variable {gap start stop : Nat} {b c : Block} {pre post blocks : List Block} {live : Bool}

/-- A block is its entry and whether it is live. -/
theorem eq_of_toEntry (entry : b.toEntry = c.toEntry) (live : b.live = c.live) : b = c := by
  cases b
  cases c
  cases entry
  cases live
  rfl

/-- The entries of the live blocks, or of the free ones, in address order. -/
def roster (live : Bool) (blocks : List Block) : List Entry :=
  (blocks.filter fun b => b.live == live).map toEntry

/-- The recorded sizes of the free blocks added up. -/
def freeBytes (blocks : List Block) : Nat :=
  ((roster false blocks).map Entry.size).sum

/-- The blocks lie one behind the other from `start` to `stop`. A block takes up the size that is
recorded for it and `gap` bytes more, in all at least the sixteen bytes of a header. -/
def Tiles (gap : Nat) : Nat → List Block → Nat → Prop
  | start, [], stop => start = stop
  | start, b :: rest, stop =>
    b.offset = start ∧ 16 ≤ gap + b.size ∧ Tiles gap (start + (gap + b.size)) rest stop

/-- Of two blocks that follow one another, one is live. -/
def Settled (blocks : List Block) : Prop :=
  blocks.IsChain fun b c => b.live = true ∨ c.live = true

/-- There are no blocks of either kind among none. -/
@[simp] theorem roster_nil : roster live [] = [] := rfl

/-- The first block is on the roster of its own kind. -/
theorem roster_cons (b : Block) (rest : List Block) :
    roster live (b :: rest) =
      if b.live = live then b.toEntry :: roster live rest else roster live rest := by
  unfold roster
  by_cases same : b.live = live
  · simp [same]
  · simp [same]

/-- The roster of two lists of blocks is that of the first and then that of the second. -/
@[simp] theorem roster_append (xs ys : List Block) :
    roster live (xs ++ ys) = roster live xs ++ roster live ys := by
  simp [roster]

/-- Free blocks that are not large enough are smaller. -/
theorem size_lt_of_none_fits {n : Nat} (nowhere : ∀ c ∈ blocks, ¬ (c.live = false ∧ n ≤ c.size)) :
    ∀ e ∈ roster false blocks, e.size < n := by
  intro e member
  obtain ⟨c, listed, rfl⟩ := List.mem_map.1 member
  obtain ⟨inside, idle⟩ := List.mem_filter.1 listed
  exact Nat.not_le.1 fun large => nowhere c inside ⟨eq_of_beq idle, large⟩

/-- All blocks are too small, or one has room. -/
theorem crowded_or_room (entries : List Entry) (n : Nat) :
    (∀ e ∈ entries, e.size < n) ∨ ∃ e ∈ entries, n ≤ e.size := by
  by_cases room : ∃ e ∈ entries, n ≤ e.size
  · exact Or.inr room
  · exact Or.inl fun e listed => Nat.lt_of_not_le fun large => room ⟨e, listed, large⟩

/-- A block is on the roster of its own kind, at its place. -/
theorem roster_of_live (kind : b.live = live) :
    roster live (pre ++ b :: post) = roster live pre ++ b.toEntry :: roster live post := by
  rw [roster_append, roster_cons, if_pos kind]

private theorem roster_of_not_live (other : b.live ≠ live) :
    roster live (pre ++ b :: post) = roster live pre ++ roster live post := by
  rw [roster_append, roster_cons, if_neg other]

/-- A free block is not on the roster of live ones. -/
theorem roster_true_of_free (free : b.live = false) :
    roster true (pre ++ b :: post) = roster true pre ++ roster true post :=
  roster_of_not_live (by rw [free]; decide)

/-- A live block is not on the roster of free ones. -/
theorem roster_false_of_live (live : b.live = true) :
    roster false (pre ++ b :: post) = roster false pre ++ roster false post :=
  roster_of_not_live (by rw [live]; decide)

/-- The roster has the entries of the blocks of its kind. -/
theorem mem_roster {e : Entry} :
    e ∈ roster live blocks ↔ ∃ b ∈ blocks, b.live = live ∧ b.toEntry = e := by
  simp [roster, and_assoc]

/-- A block is among others just if its entry is on the roster of its kind. -/
theorem toEntry_mem_roster : b.toEntry ∈ roster b.live blocks ↔ b ∈ blocks := by
  rw [mem_roster]
  constructor
  · rintro ⟨c, inside, kind, entry⟩
    exact eq_of_toEntry entry kind ▸ inside
  · intro inside
    exact ⟨b, inside, rfl, rfl⟩

/-- The blocks in front of an entry's block and behind it. -/
theorem exists_parts {e : Entry} (listed : e ∈ roster live blocks) :
    ∃ pre b post, blocks = pre ++ b :: post ∧ b.live = live ∧ b.toEntry = e := by
  obtain ⟨b, inside, kind, same⟩ := mem_roster.1 listed
  obtain ⟨pre, post, parts⟩ := List.append_of_mem inside
  exact ⟨pre, b, post, parts, kind, same⟩

/-- A roster has only entries of the blocks. -/
theorem roster_subset (live : Bool) (blocks : List Block) :
    roster live blocks ⊆ blocks.map toEntry :=
  List.map_subset _ (List.filter_subset_self _)

/-- Both rosters together have the entries of all blocks. -/
theorem mem_rosters {e : Entry} :
    e ∈ roster false blocks ++ roster true blocks ↔ e ∈ blocks.map toEntry := by
  constructor
  · intro member
    rcases List.mem_append.1 member with free | used
    · exact roster_subset false blocks free
    · exact roster_subset true blocks used
  · intro member
    obtain ⟨b, inside, rfl⟩ := List.mem_map.1 member
    cases live : b.live
    · exact List.mem_append_left _ (mem_roster.2 ⟨b, inside, live, rfl⟩)
    · exact List.mem_append_right _ (mem_roster.2 ⟨b, inside, live, rfl⟩)

/-- Both rosters together are as long as the list of blocks. -/
theorem length_roster_add (blocks : List Block) :
    (roster true blocks).length + (roster false blocks).length = blocks.length := by
  induction blocks with
  | nil => rfl
  | cons b rest ih =>
    rw [roster_cons, roster_cons, List.length_cons]
    cases live : b.live <;> simp <;> omega

/-- A roster is no longer than the list of blocks. -/
theorem length_roster_le (live : Bool) (blocks : List Block) :
    (roster live blocks).length ≤ blocks.length := by
  rw [roster, List.length_map]
  exact List.length_filter_le _ _

/-- No blocks have no free bytes. -/
@[simp] theorem freeBytes_nil : freeBytes [] = 0 := rfl

/-- The free bytes of two lists of blocks add up. -/
theorem freeBytes_append (xs ys : List Block) :
    freeBytes (xs ++ ys) = freeBytes xs + freeBytes ys := by
  simp [freeBytes]

/-- Only a free block adds to the free bytes. -/
theorem freeBytes_cons (b : Block) (rest : List Block) :
    freeBytes (b :: rest) = (if b.live then 0 else b.size) + freeBytes rest := by
  cases live : b.live <;> simp [freeBytes, roster_cons, live]

/-! ## Tilings -/

private theorem tiles_append {xs ys : List Block} :
    Tiles gap start (xs ++ ys) stop ↔
      ∃ middle, Tiles gap start xs middle ∧ Tiles gap middle ys stop := by
  induction xs generalizing start with
  | nil =>
    constructor
    · intro tiles
      exact ⟨start, rfl, tiles⟩
    · rintro ⟨middle, rfl, tiles⟩
      exact tiles
  | cons b rest ih =>
    simp only [List.cons_append, Tiles, ih]
    constructor
    · rintro ⟨offset, room, middle, first, second⟩
      exact ⟨middle, ⟨offset, room, first⟩, second⟩
    · rintro ⟨middle, ⟨offset, room, first⟩, second⟩
      exact ⟨offset, room, middle, first, second⟩

/-- What blocks tile does not end before it starts. -/
theorem Tiles.le (tiles : Tiles gap start blocks stop) : start ≤ stop := by
  induction blocks generalizing start with
  | nil => exact Nat.le_of_eq tiles
  | cons b rest ih =>
    obtain ⟨_, _, tail⟩ := tiles
    have := ih tail
    omega

/-- A block that tiles takes up sixteen bytes at least. -/
theorem Tiles.room (tiles : Tiles gap start blocks stop) (member : b ∈ blocks) :
    16 ≤ gap + b.size := by
  induction blocks generalizing start with
  | nil => cases member
  | cons c rest ih =>
    obtain ⟨_, room, tail⟩ := tiles
    rcases List.mem_cons.1 member with rfl | inside
    · exact room
    · exact ih tail inside

/-- No block begins before the range that is tiled. -/
theorem Tiles.start_le (tiles : Tiles gap start blocks stop) (member : b ∈ blocks) :
    start ≤ b.offset := by
  induction blocks generalizing start with
  | nil => cases member
  | cons c rest ih =>
    obtain ⟨offset, _, tail⟩ := tiles
    rcases List.mem_cons.1 member with rfl | inside
    · exact Nat.le_of_eq offset.symm
    · have := ih tail inside
      omega

/-- No block ends behind the range that is tiled. -/
theorem Tiles.le_stop (tiles : Tiles gap start blocks stop) (member : b ∈ blocks) :
    b.offset + (gap + b.size) ≤ stop := by
  induction blocks generalizing start with
  | nil => cases member
  | cons c rest ih =>
    obtain ⟨offset, _, tail⟩ := tiles
    rcases List.mem_cons.1 member with rfl | inside
    · rw [offset]
      exact tail.le
    · exact ih tail inside

/-- Each block ends before the next ones start. -/
theorem Tiles.pairwise (tiles : Tiles gap start blocks stop) :
    blocks.Pairwise fun b c => b.offset + (gap + b.size) ≤ c.offset := by
  induction blocks generalizing start with
  | nil => exact List.Pairwise.nil
  | cons b rest ih =>
    obtain ⟨offset, _, tail⟩ := tiles
    refine List.pairwise_cons.2 ⟨fun c member => ?_, ih tail⟩
    rw [offset]
    exact tail.start_le member

/-- Around a block of a tiling there is no overlap on either side. -/
theorem Tiles.around (tiles : Tiles gap start (pre ++ b :: post) stop) :
    (∀ c ∈ pre, c.offset + (gap + c.size) ≤ b.offset) ∧
      ∀ c ∈ post, b.offset + (gap + b.size) ≤ c.offset := by
  obtain ⟨_, tail, cross⟩ := List.pairwise_append.1 tiles.pairwise
  exact ⟨fun c member => cross c member b List.mem_cons_self, (List.pairwise_cons.1 tail).1⟩

/-- Two different members of a list are related one way or the other. -/
theorem or_of_pairwise {α : Type} {R : α → α → Prop} {l : List α} {x y : α} (pairwise : l.Pairwise R)
    (left : x ∈ l) (right : y ∈ l) (different : x ≠ y) : R x y ∨ R y x := by
  obtain ⟨before, after, rfl⟩ := List.append_of_mem left
  obtain ⟨_, tail, cross⟩ := List.pairwise_append.1 pairwise
  rcases List.mem_append.1 right with inside | inside
  · exact Or.inr (cross y inside x List.mem_cons_self)
  · rcases List.mem_cons.1 inside with rfl | inside
    · exact absurd rfl different
    · exact Or.inl ((List.pairwise_cons.1 tail).1 y inside)

/-- Two different blocks of a tiling do not overlap. -/
theorem Tiles.disjoint (tiles : Tiles gap start blocks stop) (left : b ∈ blocks)
    (right : c ∈ blocks) (different : b ≠ c) :
    b.offset + (gap + b.size) ≤ c.offset ∨ c.offset + (gap + c.size) ≤ b.offset :=
  or_of_pairwise tiles.pairwise left right different

/-- If all blocks take up multiples of a number, so do all distances from the start. -/
theorem Tiles.dvd (tiles : Tiles gap start blocks stop) {a : Nat}
    (sizes : ∀ b ∈ blocks, a ∣ gap + b.size) :
    (∀ b ∈ blocks, a ∣ b.offset - start) ∧ a ∣ stop - start := by
  induction blocks generalizing start with
  | nil =>
    obtain rfl : start = stop := tiles
    refine ⟨fun b member => ?_, by simp⟩
    cases member
  | cons b rest ih =>
    obtain ⟨offset, _, tail⟩ := tiles
    obtain ⟨offsets, distance⟩ := ih tail fun c member => sizes c (List.mem_cons_of_mem _ member)
    have first := sizes b List.mem_cons_self
    have beyond := tail.le
    constructor
    · intro c member
      rcases List.mem_cons.1 member with rfl | inside
      · rw [offset, Nat.sub_self]
        exact Nat.dvd_zero a
      · have later := tail.start_le inside
        rw [show c.offset - start = gap + b.size + (c.offset - (start + (gap + b.size))) by omega]
        exact Nat.dvd_add first (offsets c inside)
    · rw [show stop - start = gap + b.size + (stop - (start + (gap + b.size))) by omega]
      exact Nat.dvd_add first distance

/-- Replacing a block by blocks that tile the same range keeps a tiling. -/
theorem Tiles.replace {middle : List Block} (tiles : Tiles gap start (pre ++ b :: post) stop)
    (inner : Tiles gap b.offset middle (b.offset + (gap + b.size))) :
    Tiles gap start (pre ++ (middle ++ post)) stop := by
  obtain ⟨m, before, offset, _, after⟩ := tiles_append.1 tiles
  subst offset
  exact tiles_append.2 ⟨_, before, tiles_append.2 ⟨_, inner, after⟩⟩

/-- Entries in address order that do not overlap: each has room for its header, ends before the
next ones start, and ends by `stop`. -/
structure Spread (gap stop : Nat) (es : List Entry) : Prop where
  apart : es.Pairwise fun e f => e.offset + (gap + e.size) ≤ f.offset
  room : ∀ e ∈ es, 16 ≤ gap + e.size
  inside : ∀ e ∈ es, e.offset + (gap + e.size) ≤ stop

/-- Spread entries lie in ascending order. -/
theorem Spread.ascending {es : List Entry} (spread : Spread gap stop es) :
    es.Pairwise fun e f => e.offset < f.offset := by
  refine spread.apart.imp_of_mem ?_
  intro e f left _ before
  have := spread.room e left
  omega

/-- Two different entries do not overlap. -/
theorem Spread.disjoint {es : List Entry} (spread : Spread gap stop es) {e f : Entry}
    (left : e ∈ es) (right : f ∈ es) (different : e ≠ f) :
    e.offset + (gap + e.size) ≤ f.offset ∨ f.offset + (gap + f.size) ≤ e.offset :=
  or_of_pairwise spread.apart left right different

/-- Some of the entries that are spread are spread. -/
theorem Spread.sublist {es fs : List Entry} (spread : Spread gap stop es) (sub : fs.Sublist es) :
    Spread gap stop fs where
  apart := spread.apart.sublist sub
  room e member := spread.room e (sub.subset member)
  inside e member := spread.inside e (sub.subset member)

/-- Two entries that touch can be joined. -/
theorem Spread.join {e f : Entry} {rest : List Entry} (spread : Spread gap stop (e :: f :: rest))
    (touch : e.offset + (gap + e.size) = f.offset) :
    Spread gap stop (⟨e.offset, e.size + gap + f.size⟩ :: rest) where
  apart := by
    obtain ⟨behind, tail⟩ := List.pairwise_cons.1 (List.pairwise_cons.1 spread.apart).2
    refine List.pairwise_cons.2 ⟨fun d member => ?_, tail⟩
    have := behind d member
    simp only
    omega
  room d member := by
    rcases List.mem_cons.1 member with rfl | inside
    · have := spread.room e List.mem_cons_self
      simp only
      omega
    · exact spread.room d (List.mem_cons_of_mem _ (List.mem_cons_of_mem _ inside))
  inside d member := by
    rcases List.mem_cons.1 member with rfl | inside
    · have := spread.inside f (List.mem_cons_of_mem _ List.mem_cons_self)
      simp only
      omega
    · exact spread.inside d (List.mem_cons_of_mem _ (List.mem_cons_of_mem _ inside))

/-- There are only so many different numbers below a bound. -/
theorem length_le_of_nodup {l : List Nat} {n : Nat} (nodup : l.Nodup) (below : ∀ o ∈ l, o < n) :
    l.length ≤ n := by
  have subset : l ⊆ List.range n := fun o member => List.mem_range.2 (below o member)
  have few := (nodup.subperm subset).length_le
  rwa [List.length_range] at few

/-- There are no more spread entries than the range has bytes. -/
theorem Spread.length_le {es : List Entry} (spread : Spread gap stop es) : es.length ≤ stop := by
  have nodup : (es.map Entry.offset).Nodup := by
    rw [List.Nodup, List.pairwise_map]
    exact spread.ascending.imp fun below => Nat.ne_of_lt below
  rw [← List.length_map Entry.offset]
  apply length_le_of_nodup nodup
  intro o member
  obtain ⟨e, inside, rfl⟩ := List.mem_map.1 member
  have := spread.room e inside
  have := spread.inside e inside
  omega

/-- A walk with a step for every offset passes these entries and has a step left. -/
theorem Spread.exists_fuel {es : List Entry} {n : Nat} (spread : Spread gap stop es)
    (inside : stop ≤ n) : ∃ fuel, n + 1 = es.length + (fuel + 1) := by
  have short := spread.length_le
  exact ⟨n - es.length, by omega⟩

/-- The entries of blocks that tile are spread. -/
theorem Tiles.spread (tiles : Tiles gap start blocks stop) :
    Spread gap stop (blocks.map toEntry) where
  apart := List.pairwise_map.2 tiles.pairwise
  room e member := by
    obtain ⟨b, inside, rfl⟩ := List.mem_map.1 member
    exact tiles.room inside
  inside e member := by
    obtain ⟨b, inside, rfl⟩ := List.mem_map.1 member
    exact tiles.le_stop inside

/-- So are the entries of one kind. -/
theorem Tiles.spread_roster (tiles : Tiles gap start blocks stop) (live : Bool) :
    Spread gap stop (roster live blocks) :=
  tiles.spread.sublist (List.filter_sublist.map toEntry)

/-- The blocks of a tiling take up its range, with `gap` bytes for each besides its size. -/
theorem Tiles.sum_eq (tiles : Tiles gap start blocks stop) :
    start + gap * blocks.length + ((roster true blocks).map Entry.size).sum +
      ((roster false blocks).map Entry.size).sum = stop := by
  induction blocks generalizing start with
  | nil => simpa [Tiles] using tiles
  | cons b rest ih =>
    obtain ⟨_, _, tail⟩ := tiles
    have total := ih tail
    rw [List.length_cons, Nat.mul_succ]
    cases live : b.live <;> simp [roster_cons, live] at total ⊢ <;> omega

/-- Every place in the range lies in one block. -/
theorem Tiles.covered (tiles : Tiles gap start blocks stop) {i : Nat} (low : start ≤ i)
    (high : i < stop) :
    ∃! e, e ∈ blocks.map toEntry ∧ e.offset ≤ i ∧ i < e.offset + (gap + e.size) := by
  have found : ∃ e ∈ blocks.map toEntry, e.offset ≤ i ∧ i < e.offset + (gap + e.size) := by
    induction blocks generalizing start with
    | nil =>
      change start = stop at tiles
      omega
    | cons b rest ih =>
      obtain ⟨offset, _, tail⟩ := tiles
      by_cases here : i < start + (gap + b.size)
      · exact ⟨b.toEntry, List.mem_cons_self, by omega, by omega⟩
      · obtain ⟨e, member, inside⟩ := ih tail (Nat.not_lt.1 here)
        exact ⟨e, List.mem_cons_of_mem _ member, inside⟩
  obtain ⟨e, member, from_start, below⟩ := found
  refine ⟨e, ⟨member, from_start, below⟩, ?_⟩
  rintro f ⟨also, f_start, f_below⟩
  by_contra different
  have := tiles.spread.disjoint member also (Ne.symm different)
  omega

/-- Settled free blocks do not touch. -/
theorem Settled.apart (settled : Settled blocks) (tiles : Tiles gap start blocks stop)
    {e f : Entry} (left : e ∈ roster false blocks) (right : f ∈ roster false blocks) :
    e.offset + (gap + e.size) ≠ f.offset := by
  intro touch
  obtain ⟨b, b_inside, b_free, rfl⟩ := mem_roster.1 left
  obtain ⟨c, c_inside, c_free, rfl⟩ := mem_roster.1 right
  obtain ⟨pre, post, rfl⟩ := List.append_of_mem b_inside
  obtain ⟨before, _⟩ := tiles.around
  obtain ⟨_, _, offset, _, tail⟩ := tiles_append.1 tiles
  have behind : c ∈ post := by
    rcases List.mem_append.1 c_inside with inside | inside
    · have := before c inside
      omega
    · rcases List.mem_cons.1 inside with rfl | inside
      · omega
      · exact inside
  -- The block behind `b` starts where `c` does, so it is `c`.
  cases post with
  | nil => cases behind
  | cons d rest =>
    obtain ⟨next, space, farther⟩ := tail
    have same : c = d := by
      rcases List.mem_cons.1 behind with same | later
      · exact same
      · have := farther.start_le later
        omega
    obtain rfl := same
    have one := (List.isChain_cons_cons.1 (List.isChain_append.1 settled).2.1).1
    rw [b_free, c_free] at one
    simp at one

end Block

end RegionAlloc
