import RegionAlloc.Proofs.Coalesce

/-!
# A free block among others

A block that becomes free goes to its place in address order among the free ones. It is fused with
the one in front of it if that ends where the block starts, and with the one behind it if that starts
where the block ends. `Fused` says so of entries, with a case for each of the four ways in which it
can go. If no two of the others touched before, merging whatever touches comes to the same
(`exists_fused`), and outside of the range of the fused block all blocks stay as they were
(`Block.mem_coalesce_freed`).
-/

namespace RegionAlloc

variable {gap start stop merges : Nat} {e f p whole x : Entry}
  {entries after front back : List Entry}

namespace Entry

/-- What two entries that touch are together. The bytes between their sizes count as well. -/
def join (gap : Nat) (e f : Entry) : Entry :=
  { offset := e.offset, size := e.size + gap + f.size }

/-- The ranges that two entries take up do not overlap. -/
def ApartFrom (gap : Nat) (e f : Entry) : Prop :=
  e.offset + (gap + e.size) ≤ f.offset ∨ f.offset + (gap + f.size) ≤ e.offset

/-- The range that an entry takes up lies in that of another. -/
def Inside (gap : Nat) (e whole : Entry) : Prop :=
  whole.offset ≤ e.offset ∧ e.offset + (gap + e.size) ≤ whole.offset + (gap + whole.size)

@[simp] private theorem join_offset (gap : Nat) (e f : Entry) : (e.join gap f).offset = e.offset := rfl

@[simp] private theorem join_size (gap : Nat) (e f : Entry) :
    (e.join gap f).size = e.size + gap + f.size := rfl

/-- Two entries that touch end together where the second one does. -/
theorem join_stop (touch : p.offset + (gap + p.size) = e.offset) :
    (p.join gap e).offset + (gap + (p.join gap e).size) = e.offset + (gap + e.size) := by
  rw [join_offset, join_size]
  omega

private theorem Inside.refl (gap : Nat) (e : Entry) : e.Inside gap e :=
  ⟨Nat.le_refl _, Nat.le_refl _⟩

private theorem Inside.trans (inner : e.Inside gap f) (outer : f.Inside gap whole) :
    e.Inside gap whole :=
  ⟨Nat.le_trans outer.1 inner.1, Nat.le_trans inner.2 outer.2⟩

private theorem inside_join_left (gap : Nat) (e f : Entry) : e.Inside gap (e.join gap f) := by
  rw [Inside, join_offset, join_size]
  omega

private theorem inside_join_right (touch : p.offset + (gap + p.size) = e.offset) :
    e.Inside gap (p.join gap e) := by
  rw [Inside, join_offset, join_size]
  omega

private theorem Inside.not_apartFrom (inside : e.Inside gap whole) (room : 16 ≤ gap + e.size) :
    ¬ whole.ApartFrom gap e := by
  obtain ⟨low, high⟩ := inside
  unfold ApartFrom
  omega

end Entry

/-- The place of an entry in address order is behind `front` and in front of `back`. -/
structure Between (front : List Entry) (e : Entry) (back : List Entry) : Prop where
  below : ∀ p ∈ front, p.offset < e.offset
  above : ∀ q ∈ back, e.offset < q.offset

/-- How the entry `e` comes into a list of entries in address order. `whole` is what becomes of it,
and `merges` is the number of entries that it is fused with. -/
inductive Fused (gap : Nat) (e : Entry) : List Entry → List Entry → Entry → Nat → Prop
  /-- No entry touches `e`. -/
  | alone {front back : List Entry} (place : Between front e back)
      (front_apart : ∀ p ∈ front.getLast?, p.offset + (gap + p.size) ≠ e.offset)
      (back_apart : ∀ q ∈ back.head?, e.offset + (gap + e.size) ≠ q.offset) :
      Fused gap e (front ++ back) (front ++ e :: back) e 0
  /-- The entry in front of `e` ends where `e` starts. -/
  | front {front back : List Entry} {p : Entry} (place : Between (front ++ [p]) e back)
      (front_touches : p.offset + (gap + p.size) = e.offset)
      (back_apart : ∀ q ∈ back.head?, e.offset + (gap + e.size) ≠ q.offset) :
      Fused gap e (front ++ p :: back) (front ++ p.join gap e :: back) (p.join gap e) 1
  /-- The entry behind `e` starts where `e` ends. -/
  | back {front back : List Entry} {q : Entry} (place : Between front e (q :: back))
      (front_apart : ∀ p ∈ front.getLast?, p.offset + (gap + p.size) ≠ e.offset)
      (back_touches : e.offset + (gap + e.size) = q.offset) :
      Fused gap e (front ++ q :: back) (front ++ e.join gap q :: back) (e.join gap q) 1
  /-- The entries on both sides of `e` touch it. -/
  | both {front back : List Entry} {p q : Entry} (place : Between (front ++ [p]) e (q :: back))
      (front_touches : p.offset + (gap + p.size) = e.offset)
      (back_touches : e.offset + (gap + e.size) = q.offset) :
      Fused gap e (front ++ p :: q :: back) (front ++ (p.join gap e).join gap q :: back)
        ((p.join gap e).join gap q) 2

/-! ## Merging what touches -/

/-- An entry in front of others that do not touch takes in the first one if it touches that. -/
theorem joinTouching_cons_of_touch (touch : e.offset + (gap + e.size) = x.offset)
    (untouching : Untouching gap (x :: back)) :
    joinTouching gap (e :: x :: back) = e.join gap x :: back := by
  rw [joinTouching_of_touch touch]
  exact joinTouching_of_untouching (untouching.join touch)

private theorem joinTouching_cons_of_apart
    (apart : ∀ q ∈ back.head?, e.offset + (gap + e.size) ≠ q.offset)
    (untouching : Untouching gap back) : joinTouching gap (e :: back) = e :: back :=
  joinTouching_of_untouching (List.isChain_cons.2 ⟨apart, untouching⟩)

/-- The last of some entries touches `e`, or they are apart from it. -/
theorem touches_or_apart_last (gap : Nat) (front : List Entry) (e : Entry) :
    (∃ init p, front = init ++ [p] ∧ p.offset + (gap + p.size) = e.offset) ∨
      ∀ p ∈ front.getLast?, p.offset + (gap + p.size) ≠ e.offset := by
  rcases front.eq_nil_or_concat' with rfl | ⟨init, p, rfl⟩
  · exact Or.inr fun p none => by cases none
  by_cases touch : p.offset + (gap + p.size) = e.offset
  · exact Or.inl ⟨init, p, rfl, touch⟩
  · refine Or.inr fun x last => ?_
    obtain rfl : p = x := by simpa using last
    exact touch

/-- The first of some entries touches `e`, or they are apart from it. -/
theorem touches_or_apart_head (gap : Nat) (e : Entry) (back : List Entry) :
    (∃ q rest, back = q :: rest ∧ e.offset + (gap + e.size) = q.offset) ∨
      ∀ q ∈ back.head?, e.offset + (gap + e.size) ≠ q.offset := by
  cases back with
  | nil => exact Or.inr fun q none => by cases none
  | cons q rest =>
    by_cases touch : e.offset + (gap + e.size) = q.offset
    · exact Or.inl ⟨q, rest, rfl, touch⟩
    · refine Or.inr fun x first => ?_
      obtain rfl : q = x := Option.some.inj first
      exact touch

/-- Where no two of the others touch, an entry at its place is fused by merging whatever touches. -/
theorem exists_fused (place : Between front e back) (frontUntouching : Untouching gap front)
    (backUntouching : Untouching gap back) :
    ∃ whole merges, Fused gap e (front ++ back) (joinTouching gap (front ++ e :: back)) whole merges := by
  rcases touches_or_apart_last gap front e with ⟨init, p, rfl, touch⟩ | apart
  · -- The entry in front ends where `e` does once it has taken `e` in.
    have stop := Entry.join_stop touch
    have joined : joinTouching gap (init ++ [p] ++ e :: back)
        = init ++ joinTouching gap (p.join gap e :: back) := by
      rw [List.append_assoc, List.singleton_append, joinTouching_append frontUntouching,
        joinTouching_of_touch touch]
      rfl
    rw [joined, List.append_assoc, List.singleton_append]
    rcases touches_or_apart_head gap e back with ⟨q, rest, rfl, touch'⟩ | apart'
    · rw [joinTouching_cons_of_touch (stop.trans touch') backUntouching]
      exact ⟨_, _, .both place touch touch'⟩
    · rw [joinTouching_cons_of_apart (stop ▸ apart') backUntouching]
      exact ⟨_, _, .front place touch apart'⟩
  · have untouching : Untouching gap (front ++ [e]) := by
      refine List.isChain_append.2 ⟨frontUntouching, List.IsChain.singleton e, fun p last y first => ?_⟩
      obtain rfl : e = y := Option.some.inj first
      exact apart p last
    rw [joinTouching_append untouching]
    rcases touches_or_apart_head gap e back with ⟨q, rest, rfl, touch'⟩ | apart'
    · rw [joinTouching_cons_of_touch touch' backUntouching]
      exact ⟨_, _, .back place apart touch'⟩
    · rw [joinTouching_cons_of_apart apart' backUntouching]
      exact ⟨_, _, .alone place apart apart'⟩

/-! ## What a fusion keeps -/

/-- All bytes are kept, and each fusion adds those between two sizes. -/
theorem Fused.sum_eq (fused : Fused gap e entries after whole merges) :
    (after.map Entry.size).sum = (entries.map Entry.size).sum + (e.size + gap * merges) := by
  cases fused with
  | alone =>
    simp only [List.map_append, List.map_cons, List.sum_append, List.sum_cons]
    omega
  | front | back | both =>
    simp only [List.map_append, List.map_cons, List.sum_append, List.sum_cons, Entry.join_size]
    omega

/-- The fused block is there afterwards. -/
theorem Fused.mem_whole (fused : Fused gap e entries after whole merges) : whole ∈ after := by
  cases fused <;> exact List.mem_append_right _ List.mem_cons_self

/-- What comes into the list lies in what becomes of it. -/
theorem Fused.inside (fused : Fused gap e entries after whole merges) : e.Inside gap whole := by
  cases fused with
  | alone => exact .refl gap e
  | front _ touch => exact Entry.inside_join_right touch
  | back => exact Entry.inside_join_left gap e _
  | both _ touch => exact (Entry.inside_join_right touch).trans (Entry.inside_join_left gap _ _)

/-- Entries that are replaced by one around them are those that overlap it. -/
theorem mem_replaced_iff (inner : List Entry) (spread : Block.Spread gap stop (front ++ whole :: back))
    (inside : ∀ y ∈ inner, y.Inside gap whole ∧ 16 ≤ gap + y.size) :
    x ∈ front ++ whole :: back ↔ x = whole ∨ x ∈ front ++ (inner ++ back) ∧ whole.ApartFrom gap x := by
  have listed : whole ∈ front ++ whole :: back := List.mem_append_right _ List.mem_cons_self
  constructor
  · intro member
    by_cases same : x = whole
    · exact Or.inl same
    refine Or.inr ⟨?_, spread.disjoint listed member (Ne.symm same)⟩
    rcases List.mem_append.1 member with before | behind
    · exact List.mem_append_left _ before
    · have later := (List.mem_cons.1 behind).resolve_left same
      exact List.mem_append_right _ (List.mem_append_right _ later)
  · rintro (rfl | ⟨member, apart⟩)
    · exact listed
    rcases List.mem_append.1 member with before | rest
    · exact List.mem_append_left _ before
    rcases List.mem_append.1 rest with replaced | behind
    · obtain ⟨within, room⟩ := inside x replaced
      exact absurd apart (within.not_apartFrom room)
    · exact List.mem_append_right _ (List.mem_cons_of_mem _ behind)

/-- Outside of the range of the fused entry the list is as it was. -/
theorem Fused.mem_iff (fused : Fused gap e entries after whole merges)
    (spread : Block.Spread gap stop after) (room : ∀ y ∈ entries, 16 ≤ gap + y.size) :
    x ∈ after ↔ x = whole ∨ x ∈ entries ∧ whole.ApartFrom gap x := by
  cases fused with
  | alone => exact mem_replaced_iff [] spread fun y none => by cases none
  | @front front back p place touch apart =>
    refine mem_replaced_iff [p] spread fun y member => ?_
    obtain rfl := List.mem_singleton.1 member
    exact ⟨Entry.inside_join_left gap y e, room y (List.mem_append_right _ List.mem_cons_self)⟩
  | @back front back q place apart touch =>
    refine mem_replaced_iff [q] spread fun y member => ?_
    obtain rfl := List.mem_singleton.1 member
    exact ⟨Entry.inside_join_right touch, room y (List.mem_append_right _ List.mem_cons_self)⟩
  | @both front back p q place touch touch' =>
    refine mem_replaced_iff [p, q] spread fun y member => ?_
    refine ⟨?_, room y (List.mem_append_right _ (List.mem_append_left back member))⟩
    rcases List.mem_cons.1 member with rfl | last
    · exact (Entry.inside_join_left gap y e).trans (Entry.inside_join_left gap _ q)
    · obtain rfl := List.mem_singleton.1 last
      exact Entry.inside_join_right ((Entry.join_stop touch).trans touch')

/-! ## Blocks that are taken back -/

namespace Block

variable {b c : Block} {pre post : List Block}

/-- The entries of one kind around a block lie before and behind it. -/
theorem Tiles.between (tiles : Tiles gap start (pre ++ b :: post) stop) (live : Bool) :
    Between (roster live pre) b.toEntry (roster live post) := by
  have room := tiles.room (List.mem_append_right pre List.mem_cons_self)
  obtain ⟨before, behind⟩ := tiles.around
  constructor
  · intro p member
    obtain ⟨c, inside, _, rfl⟩ := mem_roster.1 member
    have := before c inside
    have := tiles.room (List.mem_append_left _ inside)
    omega
  · intro q member
    obtain ⟨c, inside, _, rfl⟩ := mem_roster.1 member
    have := behind c inside
    omega

/-- A live block that is taken back comes into the list of the free ones, where it is fused. -/
theorem Settled.fused (settled : Settled (pre ++ b :: post)) (live : b.live = true)
    (tiles : Tiles gap start (pre ++ b :: post) stop) :
    ∃ whole merges, Fused gap b.toEntry (roster false (pre ++ b :: post))
      (roster false (coalesce gap (pre ++ b.freed :: post))) whole merges := by
  have untouching := settled.untouching tiles
  rw [roster_false_of_live live] at untouching ⊢
  rw [roster_coalesce (tiles_freed tiles), roster_false_freed]
  obtain ⟨front, back, _⟩ := List.isChain_append.1 untouching
  exact exists_fused (tiles.between false) front back

/-- Outside of the range of the fused block all blocks are as they were. -/
theorem mem_coalesce_freed (tiles : Tiles gap start (pre ++ b :: post) stop) (live : b.live = true)
    (fused : Fused gap b.toEntry (roster false (pre ++ b :: post))
      (roster false (coalesce gap (pre ++ b.freed :: post))) whole merges) :
    c ∈ coalesce gap (pre ++ b.freed :: post) ↔
      c = { whole with live := false } ∨ c ∈ pre ++ b :: post ∧ whole.ApartFrom gap c.toEntry := by
  have merged : Tiles gap start (coalesce gap (pre ++ b.freed :: post)) stop :=
    (tiles_freed tiles).coalesce
  cases kind : c.live with
  | false =>
    have known : c.toEntry ∈ roster c.live (coalesce gap (pre ++ b.freed :: post)) ↔
        c.toEntry = whole ∨ c.toEntry ∈ roster c.live (pre ++ b :: post) ∧
          whole.ApartFrom gap c.toEntry :=
      kind ▸ fused.mem_iff (merged.spread_roster false) (tiles.spread_roster false).room
    rw [toEntry_mem_roster, toEntry_mem_roster] at known
    rw [known]
    refine or_congr_left ⟨fun same => ?_, fun same => congrArg toEntry same⟩
    exact eq_of_toEntry same kind
  | true =>
    have others : c ∈ coalesce gap (pre ++ b.freed :: post) ↔ c ∈ pre ++ post := by
      rw [← toEntry_mem_roster, kind, roster_true_coalesce, roster_true_freed, ← roster_append,
        ← kind, toEntry_mem_roster]
    have listed : ({ whole with live := false } : Block) ∈ coalesce gap (pre ++ b.freed :: post) :=
      toEntry_mem_roster.1 fused.mem_whole
    have different : c ≠ { whole with live := false } := by
      rintro rfl
      cases kind
    rw [or_iff_right different]
    constructor
    · intro member
      refine ⟨?_, merged.disjoint listed member (Ne.symm different)⟩
      exact (List.Sublist.append_left (List.sublist_cons_self _ _) _).subset (others.1 member)
    · rintro ⟨member, apart⟩
      apply others.2
      rcases List.mem_append.1 member with before | rest
      · exact List.mem_append_left _ before
      rcases List.mem_cons.1 rest with rfl | behind
      · exact absurd apart (fused.inside.not_apartFrom (tiles.room member))
      · exact List.mem_append_right _ behind

end Block

end RegionAlloc
