import RegionAlloc.Proofs.Blocks

/-!
# Cutting a block in two

Both kinds of heap hand out a free block whole, or cut it in two if enough is left over. How a cut
falls depends on the `gap` that a block has besides its size, on the `slack` that must be exceeded,
and on the size `n` to cut off. Cutting keeps a tiling, and as the front becomes live it keeps free
blocks apart.
-/

namespace RegionAlloc.Block

/-- The size of the live block that is cut off a free block of some size. -/
def takenSize (slack n size : Nat) : Nat :=
  if n + slack < size then n else size

/-- The live block that is cut off a free one. -/
def taken (slack n : Nat) (b : Block) : Block :=
  { offset := b.offset, size := takenSize slack n b.size, live := true }

/-- What lies behind the block that is cut off. -/
def rest (gap n : Nat) (b : Block) : Block :=
  { offset := b.offset + (gap + n), size := b.size - n - gap, live := false }

/-- The free block that is left over, if one is. -/
def leftover (gap slack n : Nat) (b : Block) : List Block :=
  if n + slack < b.size then [rest gap n b] else []

/-- The blocks that a free block is cut into. -/
def carve (gap slack n : Nat) (b : Block) : List Block :=
  taken slack n b :: leftover gap slack n b

/-- The free bytes that are lost when a block is cut off. -/
def cost (gap slack n size : Nat) : Nat :=
  if n + slack < size then n + gap else size

variable {gap slack n start stop : Nat} {b c : Block} {pre post blocks : List Block}

/-- What is taken of a block is enough for the request that fits. -/
theorem le_takenSize {size : Nat} (fits : n ≤ size) : n ≤ takenSize slack n size := by
  unfold takenSize
  split
  · exact Nat.le_refl n
  · exact fits

/-- What is taken of a block is no more than the block. -/
theorem takenSize_le {size : Nat} (fits : n ≤ size) : takenSize slack n size ≤ size := by
  unfold takenSize
  split
  · exact fits
  · exact Nat.le_refl size

/-- A block with enough left over is cut in two. -/
theorem carve_of_lt (wide : n + slack < b.size) :
    carve gap slack n b = [{ offset := b.offset, size := n, live := true }, rest gap n b] := by
  simp only [carve, taken, takenSize, leftover, if_pos wide]

/-- Any other block is handed out whole. -/
theorem carve_of_le (narrow : b.size ≤ n + slack) :
    carve gap slack n b = [{ offset := b.offset, size := b.size, live := true }] := by
  simp only [carve, taken, takenSize, leftover, if_neg (Nat.not_lt.2 narrow)]

/-- The pieces of a block that is carved tile where it lay. -/
theorem tiles_carve (room : 16 ≤ gap + b.size) (cut : 16 ≤ gap + n) (wide : 16 ≤ slack)
    (narrow : gap ≤ slack) :
    Tiles gap b.offset (carve gap slack n b) (b.offset + (gap + b.size)) := by
  unfold carve taken leftover takenSize
  by_cases split : n + slack < b.size
  · rw [if_pos split, if_pos split]
    refine ⟨rfl, cut, rfl, ?_, ?_⟩
    · change 16 ≤ gap + (b.size - n - gap)
      omega
    · change b.offset + (gap + n) + (gap + (b.size - n - gap)) = _
      omega
  · rw [if_neg split, if_neg split]
    exact ⟨rfl, room, rfl⟩

/-- What is left over of a carved block is not live. -/
theorem roster_true_leftover (b : Block) : roster true (leftover gap slack n b) = [] := by
  unfold leftover
  split <;> rfl

private theorem freeBytes_leftover (narrow : gap ≤ slack) :
    freeBytes (leftover gap slack n b) + cost gap slack n b.size = b.size := by
  unfold leftover cost
  by_cases split : n + slack < b.size
  · rw [if_pos split, if_pos split, freeBytes_cons]
    simp only [rest, Bool.false_eq_true, if_false, freeBytes_nil]
    omega
  · rw [if_neg split, if_neg split, freeBytes_nil]
    omega

/-- Whatever holds of the sizes of all blocks before a cut and of the sizes that it makes holds of
all blocks after it. -/
theorem forall_size_carve {P : Nat → Prop} (sizes : ∀ c ∈ pre ++ b :: post, P c.size) (cut : P n)
    (rest : n + slack < b.size → P (b.size - n - gap)) :
    ∀ c ∈ pre ++ (carve gap slack n b ++ post), P c.size := by
  intro c member
  rcases List.mem_append.1 member with before | inside
  · exact sizes c (List.mem_append_left _ before)
  rcases List.mem_append.1 inside with pieces | after
  · rcases List.mem_cons.1 pieces with rfl | left
    · have whole := sizes b (List.mem_append_right _ List.mem_cons_self)
      unfold taken takenSize
      split <;> assumption
    · unfold leftover at left
      split at left
      · rename_i split
        rw [List.mem_singleton.1 left]
        exact rest split
      · cases left
  · exact sizes c (List.mem_append_right _ (List.mem_cons_of_mem _ after))

/-- The live block that is cut off keeps free blocks apart. -/
theorem settled_carve (settled : Settled (pre ++ b :: post)) (free : b.live = false) :
    Settled (pre ++ (carve gap slack n b ++ post)) := by
  obtain ⟨before, after, _⟩ := List.isChain_append.1 settled
  obtain ⟨next, rest⟩ := List.isChain_cons.1 after
  have tail : Settled (leftover gap slack n b ++ post) := by
    refine List.isChain_append.2 ⟨?_, rest, ?_⟩
    · unfold leftover
      split
      · exact List.IsChain.singleton _
      · exact List.IsChain.nil
    · intro x _ y first
      have := next y first
      rw [free] at this
      exact Or.inr (this.resolve_left Bool.false_ne_true)
  refine List.isChain_append.2 ⟨before, List.isChain_cons.2 ⟨fun _ _ => Or.inl rfl, tail⟩, ?_⟩
  intro x _ y first
  obtain rfl := Option.mem_some.1 first
  exact Or.inr rfl

/-- Carving adds the piece that is taken to the live blocks. -/
theorem roster_true_carved (pre post : List Block) :
    roster true (pre ++ (carve gap slack n b ++ post))
      = roster true pre ++ (taken slack n b).toEntry :: roster true post := by
  simp [carve, roster_cons, taken, roster_true_leftover]

/-- Carving leaves what is left over, if anything, in the place of the free block. -/
theorem roster_false_carved (pre post : List Block) :
    roster false (pre ++ (carve gap slack n b ++ post))
      = roster false pre ++ (roster false (leftover gap slack n b) ++ roster false post) := by
  simp [carve, roster_cons, taken]

/-- What is free after a cut, together with what the cut cost, was free before it. -/
theorem freeBytes_carved (narrow : gap ≤ slack) (free : b.live = false) :
    freeBytes (pre ++ (carve gap slack n b ++ post)) + cost gap slack n b.size
      = freeBytes (pre ++ b :: post) := by
  have left := freeBytes_leftover (n := n) (b := b) narrow
  simp only [freeBytes_append, freeBytes_cons, carve, List.cons_append, taken, free]
  simp only [if_true, Bool.false_eq_true, if_false]
  omega

/-- Some block is the first of which `p` holds, or `p` holds of none. -/
theorem exists_first (p : Block → Prop) [DecidablePred p] (blocks : List Block) :
    (∀ c ∈ blocks, ¬ p c) ∨
      ∃ pre b post, blocks = pre ++ b :: post ∧ p b ∧ ∀ c ∈ pre, ¬ p c := by
  induction blocks with
  | nil => exact Or.inl fun c member => by cases member
  | cons d rest ih =>
    by_cases here : p d
    · exact Or.inr ⟨[], d, rest, rfl, here, fun c member => by cases member⟩
    · rcases ih with nowhere | ⟨pre, b, post, rfl, holds, before⟩
      · refine Or.inl fun c member => ?_
        rcases List.mem_cons.1 member with rfl | inside
        · exact here
        · exact nowhere c inside
      · refine Or.inr ⟨d :: pre, b, post, rfl, holds, fun c member => ?_⟩
        rcases List.mem_cons.1 member with rfl | inside
        · exact here
        · exact before c inside

/-- The first block of which `p` holds is the lowest one. -/
theorem Tiles.lowest {p : Block → Prop} (tiles : Tiles gap start (pre ++ b :: post) stop)
    (first : ∀ c ∈ pre, ¬ p c) : ∀ c ∈ pre ++ b :: post, p c → b.offset ≤ c.offset := by
  obtain ⟨_, behind⟩ := tiles.around
  intro c member holds
  rcases List.mem_append.1 member with before | inside
  · exact absurd holds (first c before)
  · rcases List.mem_cons.1 inside with rfl | after
    · exact Nat.le_refl _
    · exact Nat.le_trans (Nat.le_add_right _ _) (behind c after)

end RegionAlloc.Block
