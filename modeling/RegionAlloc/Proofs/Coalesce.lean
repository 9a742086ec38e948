import RegionAlloc.Proofs.Chained

/-!
# Merging what touches

`joinTouching` merges the entries of a list where one ends at the start of the next;
`Block.coalesce` merges free blocks that follow one another in a tiling. On a tiling both are the
same merge (`Block.roster_coalesce`): the free list need only look at ends and starts to find out
which blocks follow one another. Merging keeps the tiling and the live blocks, leaves no two free
blocks in succession, and sets `gap` bytes free for every block that disappears.
-/

namespace RegionAlloc

/-- Merges each entry that ends where the next one starts with it, `gap` bytes between their sizes
included. -/
def joinTouching (gap : Nat) : List Entry → List Entry
  | [] => []
  | [e] => [e]
  | e :: f :: rest =>
    if e.offset + (gap + e.size) = f.offset then
      joinTouching gap (⟨e.offset, e.size + gap + f.size⟩ :: rest)
    else
      e :: joinTouching gap (f :: rest)
termination_by es => es.length

/-- Two entries that touch are joined and looked at again. -/
theorem joinTouching_of_touch {gap : Nat} {e f : Entry} (touch : e.offset + (gap + e.size) = f.offset)
    (rest : List Entry) : joinTouching gap (e :: f :: rest)
      = joinTouching gap (⟨e.offset, e.size + gap + f.size⟩ :: rest) := by
  rw [joinTouching, if_pos touch]

/-- An entry that does not touch the next one is kept. -/
theorem joinTouching_of_apart {gap : Nat} {e f : Entry} (apart : e.offset + (gap + e.size) ≠ f.offset)
    (rest : List Entry) :
    joinTouching gap (e :: f :: rest) = e :: joinTouching gap (f :: rest) := by
  rw [joinTouching, if_neg apart]

/-- The first entry keeps its place. -/
theorem leadsTo_joinTouching (stop : Option Nat) (gap : Nat) (es : List Entry) :
    leadsTo stop (joinTouching gap es) = leadsTo stop es := by
  induction es using joinTouching.induct gap with
  | case1 => rw [joinTouching]
  | case2 e => rw [joinTouching]
  | case3 e f rest touch ih =>
    rw [joinTouching_of_touch touch, ih]
    rfl
  | case4 e f rest apart ih =>
    rw [joinTouching_of_apart apart]
    rfl

/-- Joining makes no more entries. -/
theorem length_joinTouching_le (gap : Nat) (es : List Entry) :
    (joinTouching gap es).length ≤ es.length := by
  induction es using joinTouching.induct gap with
  | case1 => rw [joinTouching]
  | case2 e => rw [joinTouching]
  | case3 e f rest touch ih =>
    rw [joinTouching_of_touch touch]
    exact Nat.le_succ_of_le ih
  | case4 e f rest apart ih =>
    rw [joinTouching_of_apart apart]
    exact Nat.succ_le_succ ih

/-- Joining makes no new offsets. -/
theorem exists_of_mem_joinTouching {gap : Nat} {es : List Entry} {x : Entry}
    (member : x ∈ joinTouching gap es) : ∃ y ∈ es, y.offset = x.offset := by
  induction es using joinTouching.induct gap with
  | case1 =>
    rw [joinTouching] at member
    cases member
  | case2 e =>
    rw [joinTouching] at member
    exact ⟨x, member, rfl⟩
  | case3 e f rest touch ih =>
    rw [joinTouching_of_touch touch] at member
    obtain ⟨y, inside, same⟩ := ih member
    rcases List.mem_cons.1 inside with rfl | behind
    · exact ⟨e, List.mem_cons_self, same⟩
    · exact ⟨y, List.mem_cons_of_mem _ (List.mem_cons_of_mem _ behind), same⟩
  | case4 e f rest apart ih =>
    rw [joinTouching_of_apart apart] at member
    rcases List.mem_cons.1 member with rfl | inside
    · exact ⟨x, List.mem_cons_self, rfl⟩
    · obtain ⟨y, behind, same⟩ := ih inside
      exact ⟨y, List.mem_cons_of_mem _ behind, same⟩

/-- What is apart from entries is apart from what they are joined to. -/
theorem headersApart_joinTouching {gap : Nat} {xs es : List Entry} (apart : HeadersApart xs es) :
    HeadersApart xs (joinTouching gap es) := by
  intro x left y right
  obtain ⟨z, member, same⟩ := exists_of_mem_joinTouching right
  rw [← same]
  exact apart x left z member

/-- Joined entries have no new headers. -/
theorem headersOf_joinTouching (gap : Nat) (es : List Entry) :
    headersOf (joinTouching gap es) ⊆ headersOf es := by
  intro i inside
  obtain ⟨x, member, low, below⟩ := inside
  obtain ⟨y, listed, same⟩ := exists_of_mem_joinTouching member
  exact ⟨y, listed, same ▸ low, same ▸ below⟩

/-- The first header is still one after joining. -/
theorem headersOf_first_joinTouching (gap : Nat) (e : Entry) (rest : List Entry) :
    headersOf [e] ⊆ headersOf (joinTouching gap (e :: rest)) := by
  have first := leadsTo_joinTouching none gap (e :: rest)
  intro i inside
  obtain ⟨x, same, low, below⟩ := inside
  obtain rfl := List.mem_singleton.1 same
  cases joined : joinTouching gap (x :: rest) with
  | nil =>
    rw [joined] at first
    cases first
  | cons y tail =>
    rw [joined] at first
    have offset : y.offset = x.offset := Option.some.inj first
    exact ⟨y, List.mem_cons_self, offset ▸ low, offset ▸ below⟩

/-- No entry ends where the next one starts. -/
def Untouching (gap : Nat) (es : List Entry) : Prop :=
  es.IsChain fun e f => e.offset + (gap + e.size) ≠ f.offset

/-- An entry that is joined in front touches what follows no more than the second one did. -/
theorem Untouching.join {gap : Nat} {e f : Entry} {rest : List Entry}
    (untouching : Untouching gap (f :: rest)) (touch : e.offset + (gap + e.size) = f.offset) :
    Untouching gap (⟨e.offset, e.size + gap + f.size⟩ :: rest) := by
  cases rest with
  | nil => exact List.IsChain.singleton _
  | cons d rest =>
    obtain ⟨apart, later⟩ := List.isChain_cons_cons.1 untouching
    refine List.isChain_cons_cons.2 ⟨?_, later⟩
    simp only
    omega

/-- Where nothing touches there is nothing to join. -/
theorem joinTouching_of_untouching {gap : Nat} {es : List Entry} (untouching : Untouching gap es) :
    joinTouching gap es = es := by
  induction es with
  | nil => rw [joinTouching]
  | cons e rest ih =>
    cases rest with
    | nil => rw [joinTouching]
    | cons f rest =>
      obtain ⟨apart, later⟩ := List.isChain_cons_cons.1 untouching
      rw [joinTouching_of_apart apart, ih later]

/-- Entries in front are untouched if none touches the next one up to the seam. -/
theorem joinTouching_append {gap : Nat} {xs : List Entry} {e : Entry}
    (untouching : Untouching gap (xs ++ [e])) (rest : List Entry) :
    joinTouching gap (xs ++ e :: rest) = xs ++ joinTouching gap (e :: rest) := by
  induction xs with
  | nil => rfl
  | cons x xs ih =>
    have tail := ih (List.IsChain.tail untouching)
    cases xs with
    | nil => exact joinTouching_of_apart (List.isChain_cons_cons.1 untouching).1 rest
    | cons y xs =>
      have skip : joinTouching gap (x :: y :: (xs ++ e :: rest))
          = x :: joinTouching gap (y :: (xs ++ e :: rest)) :=
        joinTouching_of_apart (List.isChain_cons_cons.1 untouching).1 _
      exact skip.trans (congrArg (x :: ·) tail)

namespace Block

variable {gap start stop : Nat} {b c : Block} {blocks pre post : List Block}

/-- The block when it was taken back. -/
def freed (b : Block) : Block :=
  { b with live := false }

/-- A freed block takes up what it took up when it was live. -/
theorem tiles_freed (tiles : Tiles gap start (pre ++ b :: post) stop) :
    Tiles gap start (pre ++ b.freed :: post) stop := by
  have room := tiles.room (List.mem_append_right pre List.mem_cons_self)
  have alone : Tiles gap b.offset [b.freed] (b.offset + (gap + b.size)) := ⟨rfl, room, rfl⟩
  exact tiles.replace alone

/-- A freed block has its header where it was. -/
theorem headers_freed (pre post : List Block) (b : Block) :
    headers (pre ++ b.freed :: post) = headers (pre ++ b :: post) := by
  simp [headers, freed]

/-- A freed block is on the roster of free ones. -/
theorem roster_false_freed (pre post : List Block) (b : Block) :
    roster false (pre ++ b.freed :: post) = roster false pre ++ b.toEntry :: roster false post := by
  simp [roster_cons, freed]

/-- A freed block is no longer on the roster of live ones. -/
theorem roster_true_freed (pre post : List Block) (b : Block) :
    roster true (pre ++ b.freed :: post) = roster true pre ++ roster true post :=
  roster_true_of_free rfl

/-- What holds of all sizes still holds when a block is freed. -/
theorem forall_size_freed {P : Nat → Prop} (sizes : ∀ c ∈ pre ++ b :: post, P c.size) :
    ∀ c ∈ pre ++ b.freed :: post, P c.size := by
  intro c member
  rcases List.mem_append.1 member with before | inside
  · exact sizes c (List.mem_append_left _ before)
  · rcases List.mem_cons.1 inside with rfl | after
    · exact sizes b (List.mem_append_right _ List.mem_cons_self)
    · exact sizes c (List.mem_append_right _ (List.mem_cons_of_mem _ after))

/-- A freed block adds its size to the free bytes. -/
theorem freeBytes_freed (live : b.live = true) :
    freeBytes (pre ++ b.freed :: post) = freeBytes (pre ++ b :: post) + b.size := by
  simp only [freeBytes_append, freeBytes_cons, live, freed]
  simp only [if_true, Bool.false_eq_true, if_false]
  omega

/-- The free block that two blocks make. -/
def fuse (gap : Nat) (b c : Block) : Block :=
  { offset := b.offset, size := b.size + gap + c.size, live := false }

/-- Merges free blocks that follow one another. -/
def coalesce (gap : Nat) : List Block → List Block
  | [] => []
  | [b] => [b]
  | b :: c :: rest =>
    if b.live = false ∧ c.live = false then coalesce gap (fuse gap b c :: rest)
    else b :: coalesce gap (c :: rest)
termination_by blocks => blocks.length

private theorem coalesce_fuse (left : b.live = false) (right : c.live = false) (rest : List Block) :
    coalesce gap (b :: c :: rest) = coalesce gap (fuse gap b c :: rest) := by
  rw [coalesce, if_pos ⟨left, right⟩]

/-- The first block keeps its place. -/
theorem coalesce_cons (gap : Nat) (b : Block) (rest : List Block) :
    ∃ size tail, coalesce gap (b :: rest) = { b with size := size } :: tail := by
  induction rest generalizing b with
  | nil => exact ⟨b.size, [], by rw [coalesce]⟩
  | cons c rest ih =>
    by_cases free : b.live = false ∧ c.live = false
    · obtain ⟨size, tail, merged⟩ := ih (fuse gap b c)
      refine ⟨size, tail, ?_⟩
      rw [coalesce_fuse free.1 free.2, merged]
      simp [fuse, free.1]
    · exact ⟨b.size, coalesce gap (c :: rest), by rw [coalesce, if_neg free]⟩

/-- After coalescing, of two blocks that follow one another one is live. -/
theorem settled_coalesce (blocks : List Block) : Settled (coalesce gap blocks) := by
  induction blocks using coalesce.induct gap with
  | case1 => rw [coalesce]; exact List.IsChain.nil
  | case2 b => rw [coalesce]; exact List.IsChain.singleton b
  | case3 b c rest free ih => rwa [coalesce_fuse free.1 free.2]
  | case4 b c rest free ih =>
    rw [coalesce, if_neg free]
    obtain ⟨size, tail, merged⟩ := coalesce_cons gap c rest
    rw [merged] at ih ⊢
    refine List.isChain_cons_cons.2 ⟨?_, ih⟩
    cases left : b.live
    · cases right : c.live
      · exact absurd ⟨left, right⟩ free
      · exact Or.inr rfl
    · exact Or.inl rfl

private theorem Tiles.fuse {rest : List Block} (tiles : Tiles gap start (b :: c :: rest) stop) :
    Tiles gap start (fuse gap b c :: rest) stop := by
  obtain ⟨offset, room, _, _, tail⟩ := tiles
  refine ⟨offset, ?_, ?_⟩
  · simp only [Block.fuse]
    omega
  · simpa only [Block.fuse, show start + (gap + (b.size + gap + c.size))
      = start + (gap + b.size) + (gap + c.size) by omega] using tail

/-- Coalesced blocks tile what the blocks tiled. -/
theorem Tiles.coalesce (tiles : Tiles gap start blocks stop) :
    Tiles gap start (coalesce gap blocks) stop := by
  induction blocks using Block.coalesce.induct gap generalizing start with
  | case1 => rwa [Block.coalesce]
  | case2 b => rwa [Block.coalesce]
  | case3 b c rest free ih =>
    rw [coalesce_fuse free.1 free.2]
    exact ih tiles.fuse
  | case4 b c rest free ih =>
    rw [Block.coalesce, if_neg free]
    obtain ⟨offset, room, tail⟩ := tiles
    exact ⟨offset, room, ih tail⟩

/-- Coalescing leaves the live blocks alone. -/
theorem roster_true_coalesce (blocks : List Block) :
    roster true (coalesce gap blocks) = roster true blocks := by
  induction blocks using coalesce.induct gap with
  | case1 => rw [coalesce]
  | case2 b => rw [coalesce]
  | case3 b c rest free ih =>
    rw [coalesce_fuse free.1 free.2, ih]
    simp [roster_cons, fuse, free.1, free.2]
  | case4 b c rest free ih =>
    rw [coalesce, if_neg free, roster_cons, ih, ← roster_cons]

/-- What a merge sets free is the space between the blocks that it joins. -/
theorem freeBytes_coalesce (gap : Nat) (blocks : List Block) :
    freeBytes (coalesce gap blocks) + gap * (coalesce gap blocks).length
      = freeBytes blocks + gap * blocks.length := by
  induction blocks using coalesce.induct gap with
  | case1 => rw [coalesce]
  | case2 b => rw [coalesce]
  | case3 b c rest free ih =>
    rw [coalesce_fuse free.1 free.2, ih]
    simp only [freeBytes_cons, fuse, free.1, free.2, List.length_cons, Nat.mul_succ]
    simp only [Bool.false_eq_true, if_false]
    omega
  | case4 b c rest free ih =>
    rw [coalesce, if_neg free]
    simp only [freeBytes_cons, List.length_cons, Nat.mul_succ] at ih ⊢
    omega

/-- Coalescing makes no more blocks. -/
theorem length_coalesce_le (gap : Nat) (blocks : List Block) :
    (coalesce gap blocks).length ≤ blocks.length := by
  induction blocks using coalesce.induct gap with
  | case1 => rw [coalesce]
  | case2 b => rw [coalesce]
  | case3 b c rest free ih =>
    rw [coalesce_fuse free.1 free.2]
    exact Nat.le_succ_of_le ih
  | case4 b c rest free ih =>
    rw [coalesce, if_neg free]
    exact Nat.succ_le_succ ih

/-- What holds of the sizes of all blocks, and of what two of them make, holds after merging. -/
theorem forall_size_coalesce {P : Nat → Prop} (sizes : ∀ b ∈ blocks, P b.size)
    (join : ∀ m n, P m → P n → P (m + gap + n)) : ∀ b ∈ coalesce gap blocks, P b.size := by
  induction blocks using coalesce.induct gap with
  | case1 => rwa [coalesce]
  | case2 b => rwa [coalesce]
  | case3 b c rest free ih =>
    rw [coalesce_fuse free.1 free.2]
    apply ih
    intro d member
    rcases List.mem_cons.1 member with rfl | inside
    · have first := sizes b List.mem_cons_self
      have second := sizes c (List.mem_cons_of_mem _ List.mem_cons_self)
      exact join b.size c.size first second
    · exact sizes d (List.mem_cons_of_mem _ (List.mem_cons_of_mem _ inside))
  | case4 b c rest free ih =>
    rw [coalesce, if_neg free]
    intro d member
    rcases List.mem_cons.1 member with rfl | inside
    · exact sizes d List.mem_cons_self
    · exact ih (fun e later => sizes e (List.mem_cons_of_mem _ later)) d inside

/-- Merging makes no new headers. -/
theorem headers_coalesce (gap : Nat) (blocks : List Block) :
    headers (coalesce gap blocks) ⊆ headers blocks := by
  induction blocks using coalesce.induct gap with
  | case1 => rw [coalesce]
  | case2 b => rw [coalesce]
  | case3 b c rest free ih =>
    rw [coalesce_fuse free.1 free.2]
    refine Set.Subset.trans ih ?_
    intro i inside
    obtain ⟨e, member, low, below⟩ := inside
    rcases List.mem_cons.1 member with same | behind
    · subst same
      exact ⟨b.toEntry, List.mem_cons_self, low, below⟩
    · exact ⟨e, List.mem_cons_of_mem _ (List.mem_cons_of_mem _ behind), low, below⟩
  | case4 b c rest free ih =>
    rw [coalesce, if_neg free]
    intro i inside
    obtain ⟨e, member, low, below⟩ := inside
    rcases List.mem_cons.1 member with first | behind
    · exact ⟨e, first ▸ List.mem_cons_self, low, below⟩
    · obtain ⟨f, listed, from_start, under⟩ := ih ⟨e, behind, low, below⟩
      exact ⟨f, List.mem_cons_of_mem _ listed, from_start, under⟩

/-- The free blocks of a settled tiling do not touch. -/
theorem Settled.untouching (settled : Settled blocks) (tiles : Tiles gap start blocks stop) :
    Untouching gap (roster false blocks) := by
  apply List.Pairwise.isChain
  apply List.pairwise_of_forall_mem_list
  intro e left f right
  exact settled.apart tiles left right

/-- In a tiling the free blocks that touch are those that follow one another. -/
theorem roster_coalesce (tiles : Tiles gap start blocks stop) :
    roster false (coalesce gap blocks) = joinTouching gap (roster false blocks) := by
  induction blocks using coalesce.induct gap generalizing start with
  | case1 => simp [coalesce, joinTouching]
  | case2 b =>
    rw [coalesce, roster_cons]
    split <;> simp [joinTouching]
  | case3 b c rest free ih =>
    have touch : b.offset + (gap + b.size) = c.offset := by
      obtain ⟨offset, _, next, _⟩ := tiles
      omega
    rw [coalesce_fuse free.1 free.2, ih tiles.fuse]
    simp [roster_cons, fuse, free.1, free.2, joinTouching, touch]
  | case4 b c rest free ih =>
    obtain ⟨offset, room, tail⟩ := tiles
    have later := ih tail
    rw [coalesce, if_neg free]
    by_cases left : b.live = false
    · have right : c.live = true := by
        cases live : c.live
        · exact absurd ⟨left, live⟩ free
        · rfl
      rw [roster_cons, if_pos left, roster_cons b, if_pos left, later]
      cases listed : roster false (c :: rest) with
      | nil => simp [joinTouching]
      | cons e es =>
        -- The live block `c` keeps `b` apart from the next free block.
        have behind : e ∈ roster false rest := by
          have := listed ▸ List.mem_cons_self
          rwa [roster_cons, if_neg (by rw [right]; decide)] at this
        obtain ⟨d, member, _, rfl⟩ := mem_roster.1 behind
        obtain ⟨next, space, farther⟩ := tail
        have beyond := farther.start_le member
        rw [joinTouching, if_neg (by omega)]
    · rw [roster_cons, if_neg left, roster_cons b, if_neg left, later]

/-! ## Settled tilings -/

/-- A free block of a settled tiling ends where the next live block starts, or where the range ends. -/
theorem Settled.leadsTo_live {rest : List Block} (settled : Settled (b :: rest))
    (free : b.live = false) (tiles : Tiles gap start rest stop) :
    leadsTo (some stop) (roster true rest) = some start := by
  cases rest with
  | nil =>
    obtain rfl : start = stop := tiles
    rfl
  | cons c rest =>
    obtain ⟨next, _⟩ := List.isChain_cons_cons.1 settled
    have live : c.live = true := next.resolve_left fun live => by
      rw [free] at live
      cases live
    rw [roster_cons, if_pos live]
    exact congrArg some tiles.1

/-- A live block stands first in the roster, and nothing else stands at its place. -/
theorem Tiles.not_roster_cons {rest : List Block} {e : Entry} {es : List Entry}
    (tiles : Tiles gap start (b :: rest) stop) (free : b.live = false) (place : e.offset = start) :
    roster true (b :: rest) ≠ e :: es := by
  intro listed
  rw [roster_cons, if_neg (by rw [free]; decide)] at listed
  obtain ⟨_, room, tail⟩ := tiles
  have member : e ∈ roster true rest := listed ▸ List.mem_cons_self
  obtain ⟨c, inside, _, rfl⟩ := mem_roster.1 member
  have beyond := tail.start_le inside
  omega

/-- **A settled tiling is determined by its live blocks**: between two of them, and at either end,
there is room for at most one free block, and it takes up all of it. -/
theorem Tiles.eq_of_roster {others : List Block} (tiles : Tiles gap start blocks stop)
    (settled : Settled blocks) (tiles' : Tiles gap start others stop) (settled' : Settled others)
    (same : roster true blocks = roster true others) : blocks = others := by
  induction blocks generalizing start others with
  | nil =>
    cases others with
    | nil => rfl
    | cons c rest =>
      obtain rfl : start = stop := tiles
      obtain ⟨_, room, tail⟩ := tiles'
      have := tail.le
      omega
  | cons b rest ih =>
    cases others with
    | nil =>
      obtain rfl : start = stop := tiles'
      obtain ⟨_, room, tail⟩ := tiles
      have := tail.le
      omega
    | cons c rest' =>
      have first : b = c ∧ roster true rest = roster true rest' := by
        cases left : b.live
        · cases right : c.live
          · have next := settled.leadsTo_live left tiles.2.2
            have next' := settled'.leadsTo_live right tiles'.2.2
            rw [roster_cons, if_neg (by rw [left]; decide), roster_cons,
              if_neg (by rw [right]; decide)] at same
            rw [same, next'] at next
            have ends := Option.some.inj next
            have offset := tiles.1.trans tiles'.1.symm
            have size : b.size = c.size := by omega
            exact ⟨eq_of_toEntry (Entry.mk.injEq .. ▸ ⟨offset, size⟩) (left.trans right.symm), same⟩
          · rw [roster_cons c, if_pos right] at same
            exact absurd same (tiles.not_roster_cons left tiles'.1)
        · cases right : c.live
          · rw [roster_cons b, if_pos left] at same
            exact absurd same.symm (tiles'.not_roster_cons right tiles.1)
          · rw [roster_cons, if_pos left, roster_cons, if_pos right] at same
            obtain ⟨entry, later⟩ := List.cons.inj same
            exact ⟨eq_of_toEntry entry (left.trans right.symm), later⟩
      obtain ⟨rfl, later⟩ := first
      exact congrArg (b :: ·) (ih tiles.2.2 settled.tail tiles'.2.2 settled'.tail later)

end Block

end RegionAlloc
