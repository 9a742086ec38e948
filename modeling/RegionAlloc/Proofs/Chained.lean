import Mathlib.Data.Set.Basic
import RegionAlloc.Proofs.Blocks
import RegionAlloc.Region.Lemmas

/-!
# Lists that run through a region

The headers of a heap's blocks form lists: each holds a link to the next and a size.
`Region.Chained` says that a region holds a given list of entries so, for links stored by a given
code. A list that leads to `stop` is redirected by one write into its last header
(`Region.Chained.relink`), and a write elsewhere leaves it alone (`Region.Chained.writeWord`).

`Region.AgreesOff` is the frame condition: two regions differ in a given set of offsets at most.
-/

namespace RegionAlloc

/-- The offsets that the headers of these entries take up. -/
def headersOf (es : List Entry) : Set Nat :=
  {i | ∃ e ∈ es, e.offset ≤ i ∧ i < e.offset + 16}

/-- Where a list begins; one without entries begins where it leads to. -/
def leadsTo (stop : Option Nat) : List Entry → Option Nat
  | [] => stop
  | e :: _ => some e.offset

/-- The last offset that a walk over these entries passes, after `previous`. -/
def lastFrom (previous : Option Nat) : List Entry → Option Nat
  | [] => previous
  | e :: rest => lastFrom (some e.offset) rest

/-- A list leads to where its first part leads with the second one behind it. -/
@[simp] theorem leadsTo_append (stop : Option Nat) (xs ys : List Entry) :
    leadsTo stop (xs ++ ys) = leadsTo (leadsTo stop ys) xs := by
  cases xs <;> rfl

/-- The last entry of a list is the one at its end. -/
@[simp] theorem lastFrom_concat (previous : Option Nat) (xs : List Entry) (e : Entry) :
    lastFrom previous (xs ++ [e]) = some e.offset := by
  induction xs generalizing previous with
  | nil => rfl
  | cons x rest ih => exact ih (some x.offset)

/-- More entries have more headers. -/
theorem headersOf_mono {xs ys : List Entry} (subset : xs ⊆ ys) : headersOf xs ⊆ headersOf ys := by
  rintro i ⟨e, member, inside⟩
  exact ⟨e, subset member, inside⟩

private theorem mem_headersOf_of_word {es : List Entry} {e : Entry} {p i : Nat} (member : e ∈ es)
    (word : p = e.offset ∨ p = e.offset + 8) (low : p ≤ i) (high : i < p + 8) :
    i ∈ headersOf es := by
  refine ⟨e, member, ?_⟩
  omega

/-! ## Walks that end -/

/-- A walk from `first` on, which goes on from each place as `next` says, comes by these places and
ends. -/
def Follows (next : Nat → Option Nat) : Option Nat → List Nat → Prop
  | first, [] => first = none
  | first, o :: rest => first = some o ∧ Follows next (next o) rest

section Walks

variable {next : Nat → Option Nat} {first : Option Nat} {o : Nat} {xs ys : List Nat}

private theorem Follows.suffix (walk : Follows next first (xs ++ o :: ys)) :
    Follows next (some o) (o :: ys) := by
  induction xs generalizing first with
  | nil => exact ⟨rfl, walk.2⟩
  | cons x xs ih => exact ih walk.2

private theorem Follows.unique (walk : Follows next first xs)
    (other : Follows next first ys) : xs = ys := by
  induction xs generalizing first ys with
  | nil =>
    obtain rfl : first = none := walk
    cases ys with
    | nil => rfl
    | cons y ys => cases other.1
  | cons x xs ih =>
    obtain ⟨rfl, later⟩ := walk
    cases ys with
    | nil => cases other
    | cons y ys =>
      obtain ⟨same, later'⟩ := other
      obtain rfl := Option.some.inj same
      rw [ih later later']

/-- A walk that ends comes by no place twice. -/
theorem Follows.nodup (walk : Follows next first xs) : xs.Nodup := by
  induction xs generalizing first with
  | nil => exact List.nodup_nil
  | cons o rest ih =>
    refine List.nodup_cons.2 ⟨?_, ih walk.2⟩
    intro again
    -- From the second time on the walk would be the same as from the first, but shorter.
    obtain ⟨front, back, rfl⟩ := List.append_of_mem again
    have start : first = some o := walk.1
    have same := walk.unique (start ▸ walk.2.suffix)
    have length := congrArg List.length same
    rw [List.length_cons, List.length_append, List.length_cons] at length
    omega

end Walks

/-- The offsets that the headers of these blocks take up. -/
def Block.headers (blocks : List Block) : Set Nat :=
  headersOf (blocks.map Block.toEntry)

/-- The header of a block is among those of all blocks. -/
theorem Block.headersOf_subset {blocks : List Block} {b : Block} (member : b ∈ blocks) :
    headersOf [b.toEntry] ⊆ Block.headers blocks := by
  apply headersOf_mono
  intro e same
  obtain rfl := List.mem_singleton.1 same
  exact List.mem_map_of_mem member

/-- The headers of one kind of blocks are among those of all. -/
theorem headersOf_roster (live : Bool) (blocks : List Block) :
    headersOf (Block.roster live blocks) ⊆ Block.headers blocks :=
  headersOf_mono (Block.roster_subset live blocks)

/-- What lies behind the header of a block belongs to no header. -/
theorem Block.Tiles.not_mem_headers {gap start stop i : Nat} {blocks : List Block} {b : Block}
    (tiles : Block.Tiles gap start blocks stop) (member : b ∈ blocks) (low : b.offset + 16 ≤ i)
    (high : i < b.offset + (gap + b.size)) : i ∉ Block.headers blocks := by
  rintro ⟨e, listed, from_start, below⟩
  obtain ⟨c, inside, rfl⟩ := List.mem_map.1 listed
  by_cases same : b = c
  · subst same
    omega
  · have wide := tiles.room inside
    have := tiles.disjoint member inside same
    omega

/-- No header of the one list overlaps a header of the other. -/
def HeadersApart (xs ys : List Entry) : Prop :=
  ∀ x ∈ xs, ∀ y ∈ ys, x.offset + 16 ≤ y.offset ∨ y.offset + 16 ≤ x.offset

/-- Being apart is symmetric. -/
theorem HeadersApart.symm {xs ys : List Entry} (apart : HeadersApart xs ys) :
    HeadersApart ys xs :=
  fun y right x left => (apart x left y right).symm

/-- Fewer entries are all the more apart. -/
theorem HeadersApart.mono {xs ys xs' ys' : List Entry} (apart : HeadersApart xs ys)
    (left : xs' ⊆ xs) (right : ys' ⊆ ys) : HeadersApart xs' ys' :=
  fun x first y second => apart x (left first) y (right second)

/-- To be apart from two lists is to be apart from each. -/
theorem headersApart_append {xs ys zs : List Entry} :
    HeadersApart xs (ys ++ zs) ↔ HeadersApart xs ys ∧ HeadersApart xs zs := by
  constructor
  · intro apart
    exact ⟨apart.mono (List.Subset.refl _) (List.subset_append_left ys zs),
      apart.mono (List.Subset.refl _) (List.subset_append_right ys zs)⟩
  · rintro ⟨first, second⟩ x left y right
    rcases List.mem_append.1 right with before | after
    · exact first x left y before
    · exact second x left y after

/-- To be apart from a list is to be apart from its first entry and from the rest. -/
theorem headersApart_cons {xs ys : List Entry} {e : Entry} :
    HeadersApart xs (e :: ys) ↔ HeadersApart xs [e] ∧ HeadersApart xs ys := by
  rw [← List.singleton_append, headersApart_append]

/-- The headers of spread entries lie apart from those that follow. -/
theorem headersApart_of_spread {gap stop : Nat} {xs ys : List Entry}
    (spread : Block.Spread gap stop (xs ++ ys)) : HeadersApart xs ys := by
  intro x left y right
  have room := spread.room x (List.mem_append_left _ left)
  have before := (List.pairwise_append.1 spread.apart).2.2 x left y right
  exact Or.inl (by omega)

/-- In a tiling the headers of live and free blocks do not overlap. -/
theorem headersApart_of_tiles {gap start stop : Nat} {blocks : List Block}
    (tiles : Block.Tiles gap start blocks stop) (live : Bool) :
    HeadersApart (Block.roster live blocks) (Block.roster (!live) blocks) := by
  intro x left y right
  obtain ⟨b, inside, first, rfl⟩ := Block.mem_roster.1 left
  obtain ⟨c, also, second, rfl⟩ := Block.mem_roster.1 right
  have different : b ≠ c := by
    rintro rfl
    rw [first] at second
    cases live <;> cases second
  have wide := tiles.room inside
  have broad := tiles.room also
  have := tiles.disjoint inside also different
  omega

/-- A header inside a block of a tiling overlaps no header of another block. -/
theorem Block.Tiles.headersApart_inside {gap start stop : Nat} {pre post : List Block} {b : Block}
    {e : Entry} (tiles : Block.Tiles gap start (pre ++ b :: post) stop) (low : b.offset ≤ e.offset)
    (high : e.offset + 16 ≤ b.offset + (gap + b.size)) (live : Bool) :
    HeadersApart [e] (Block.roster live pre ++ Block.roster live post) := by
  have behind : ∀ c ∈ pre, 16 ≤ gap + c.size := fun c inside =>
    tiles.room (List.mem_append_left _ inside)
  obtain ⟨before, after⟩ := tiles.around
  intro x same y member
  obtain rfl := List.mem_singleton.1 same
  rcases List.mem_append.1 member with left | right
  · obtain ⟨c, inside, _, rfl⟩ := Block.mem_roster.1 left
    have := before c inside
    have := behind c inside
    exact Or.inr (by omega)
  · obtain ⟨c, inside, _, rfl⟩ := Block.mem_roster.1 right
    have := after c inside
    exact Or.inl (by omega)

namespace Region

variable {r r' r'' : Region} {changed : Set Nat} {code : Option Nat → Nat} {stop link : Option Nat}
  {es xs ys : List Entry} {e : Entry}

/-- The second region is the first but for bytes at `changed` offsets. -/
structure AgreesOff (changed : Set Nat) (r r' : Region) : Prop where
  sameBase : r'.base = r.base
  sameSize : r'.size = r.size
  sameByte : ∀ i ∉ changed, r'.byte i = r.byte i

/-- A region agrees with itself off anything. -/
theorem AgreesOff.refl (changed : Set Nat) (r : Region) : AgreesOff changed r r :=
  ⟨rfl, rfl, fun _ _ => rfl⟩

/-- Two changes to the same bytes are one. -/
theorem AgreesOff.trans (first : AgreesOff changed r r') (second : AgreesOff changed r' r'') :
    AgreesOff changed r r'' where
  sameBase := second.sameBase.trans first.sameBase
  sameSize := second.sameSize.trans first.sameSize
  sameByte i outside := (second.sameByte i outside).trans (first.sameByte i outside)

/-- What changed is among what may change. -/
theorem AgreesOff.mono {wider : Set Nat} (agrees : AgreesOff changed r r')
    (subset : changed ⊆ wider) : AgreesOff wider r r' where
  sameBase := agrees.sameBase
  sameSize := agrees.sameSize
  sameByte i outside := agrees.sameByte i fun inside => outside (subset inside)

/-- Writing bytes changes nothing but where they are written. -/
theorem agreesOff_writeBytes {offset : Nat} {data : List UInt8}
    (inside : ∀ i, offset ≤ i → i < offset + data.length → i ∈ changed) :
    AgreesOff changed r (r.writeBytes offset data) where
  sameBase := r.base_writeBytes offset data
  sameSize := r.size_writeBytes offset data
  sameByte i outside := by
    apply r.byte_writeBytes_of_disjoint
    by_contra overlap
    exact outside (inside i (by omega) (by omega))

/-- Writing a word changes nothing but its eight bytes. -/
theorem agreesOff_writeWord {offset : Nat} (word : Nat)
    (inside : ∀ i, offset ≤ i → i < offset + 8 → i ∈ changed) :
    AgreesOff changed r (r.writeWord offset word) := by
  rw [writeWord_def]
  apply agreesOff_writeBytes
  rwa [Word.length_toBytes]

/-- A word of an entry's header is written. -/
theorem agreesOff_header {p : Nat} (word : Nat) (member : e ∈ es)
    (place : p = e.offset ∨ p = e.offset + 8) :
    AgreesOff (headersOf es) r (r.writeWord p word) :=
  agreesOff_writeWord word fun _ low high => mem_headersOf_of_word member place low high

/-- Bytes read off the changed ones are as they were. -/
theorem AgreesOff.readBytes_eq (agrees : AgreesOff changed r r') {offset count : Nat}
    (outside : ∀ i, offset ≤ i → i < offset + count → i ∉ changed) :
    r'.readBytes offset count = r.readBytes offset count := by
  apply List.map_congr_left
  intro i member
  have := List.mem_range.1 member
  exact agrees.sameByte _ (outside _ (by omega) (by omega))

/-- A word read off the changed bytes is as it was. -/
theorem AgreesOff.readWord_eq (agrees : AgreesOff changed r r') {offset : Nat}
    (outside : ∀ i, offset ≤ i → i < offset + 8 → i ∉ changed) :
    r'.readWord offset = r.readWord offset := by
  rw [Region.readWord_eq, Region.readWord_eq, agrees.readBytes_eq outside]

/-- The region holds a list of entries that leads to `stop`: the header of each holds the link to
the next one, as `code` stores it, and the size of the entry. -/
def Chained (code : Option Nat → Nat) (r : Region) (stop : Option Nat) : List Entry → Prop
  | [] => True
  | e :: rest =>
    e.offset + 16 ≤ r.size ∧ r.readWord e.offset = code (leadsTo stop rest) ∧
      r.readWord (e.offset + 8) = e.size ∧ Chained code r stop rest

instance decidableChained (code : Option Nat → Nat) (r : Region) (stop : Option Nat) :
    ∀ es, Decidable (Chained code r stop es)
  | [] => inferInstanceAs (Decidable True)
  | _ :: rest =>
    have := decidableChained code r stop rest
    inferInstanceAs (Decidable (_ ∧ _ ∧ _ ∧ _))

/-- A chain of two lists is a chain of the first that leads to the second, and one of the second. -/
theorem chained_append :
    Chained code r stop (xs ++ ys) ↔
      Chained code r (leadsTo stop ys) xs ∧ Chained code r stop ys := by
  induction xs with
  | nil => exact ⟨fun chained => ⟨trivial, chained⟩, fun chained => chained.2⟩
  | cons e rest ih =>
    simp only [List.cons_append, Chained, leadsTo_append, ih, and_assoc]

/-- The header of an entry on a chain lies in the region. -/
theorem Chained.room (chained : Chained code r stop es) (member : e ∈ es) :
    e.offset + 16 ≤ r.size := by
  induction es with
  | nil => cases member
  | cons f rest ih =>
    obtain ⟨room, _, _, tail⟩ := chained
    rcases List.mem_cons.1 member with rfl | inside
    · exact room
    · exact ih tail inside

/-- The size word of an entry on a chain is its size. -/
theorem Chained.size_of_mem (chained : Chained code r stop es) (member : e ∈ es) :
    r.readWord (e.offset + 8) = e.size := by
  induction es with
  | nil => cases member
  | cons f rest ih =>
    obtain ⟨_, _, size, tail⟩ := chained
    rcases List.mem_cons.1 member with rfl | inside
    · exact size
    · exact ih tail inside

/-- A chain is still one after a change off the headers of its entries. -/
theorem Chained.agreesOff (chained : Chained code r stop es) (agrees : AgreesOff changed r r')
    (outside : ∀ e ∈ es, ∀ i, e.offset ≤ i → i < e.offset + 16 → i ∉ changed) :
    Chained code r' stop es := by
  induction es with
  | nil => trivial
  | cons e rest ih =>
    obtain ⟨room, next, size, tail⟩ := chained
    have here := outside e List.mem_cons_self
    refine ⟨?_, ?_, ?_, ih tail fun f member => outside f (List.mem_cons_of_mem _ member)⟩
    · rwa [agrees.sameSize]
    · rw [agrees.readWord_eq fun i low high => here i low (by omega)]
      exact next
    · rw [agrees.readWord_eq fun i low high => here i (by omega) (by omega)]
      exact size

/-- A word written apart from all headers of a list leaves the list as it is. -/
theorem Chained.writeWord (chained : Chained code r stop es) {p word : Nat}
    (outside : ∀ e ∈ es, p + 8 ≤ e.offset ∨ e.offset + 16 ≤ p) :
    Chained code (r.writeWord p word) stop es := by
  have agrees : AgreesOff {i | p ≤ i ∧ i < p + 8} r (r.writeWord p word) :=
    agreesOff_writeWord word fun i low high => ⟨low, high⟩
  refine chained.agreesOff agrees ?_
  rintro e member i low high ⟨_, _⟩
  have := outside e member
  omega

/-- Writes into the headers of one list leave a list apart from it as it is. -/
theorem Chained.off_headers (chained : Chained code r stop ys)
    (agrees : AgreesOff (headersOf xs) r r') (apart : HeadersApart xs ys) :
    Chained code r' stop ys := by
  refine chained.agreesOff agrees ?_
  rintro y right i low high ⟨x, left, from_start, below⟩
  have := apart x left y right
  omega

/-- A list is redirected by writing the new link into its last header. -/
theorem Chained.relink (chained : Chained code r stop (xs ++ [e]))
    (apart : ∀ f ∈ xs, f.offset + 16 ≤ e.offset) (word : code link < 0x10000000000000000) :
    Chained code (r.writeWord e.offset (code link)) link (xs ++ [e]) := by
  obtain ⟨front, room, _, size, _⟩ := chained_append.1 chained
  refine chained_append.2 ⟨?_, ?_, ?_, ?_, trivial⟩
  · exact Chained.writeWord front fun f member => Or.inr (apart f member)
  · rwa [size_writeWord]
  · exact r.readWord_writeWord word (by omega)
  · rw [r.readWord_writeWord_of_disjoint (by omega)]
    exact size

/-! ## Side by side -/

variable {q q' : Region} {before frame after : Set Nat}

private theorem byte_eq_of_readNat {count offset i : Nat}
    (same : r'.readNat count offset = r.readNat count offset) (low : offset ≤ i)
    (high : i < offset + count) : r'.byte i = r.byte i := by
  induction count generalizing offset with
  | zero => omega
  | succ count ih =>
    have small := (r.byte offset).toNat_lt
    have small' := (r'.byte offset).toNat_lt
    simp only [readNat] at same
    by_cases here : i = offset
    · subst here
      exact UInt8.toNat_inj.1 (by omega)
    · have rest : r'.readNat count (offset + 1) = r.readNat count (offset + 1) := by omega
      exact ih rest (by omega) (by omega)

/-- Headers with the same words have the same bytes. -/
theorem byte_eq_of_words {offset i : Nat} (link : r'.readWord offset = r.readWord offset)
    (size : r'.readWord (offset + 8) = r.readWord (offset + 8)) (low : offset ≤ i)
    (high : i < offset + 16) : r'.byte i = r.byte i := by
  rw [readWord_def, readWord_def] at link size
  by_cases first : i < offset + 8
  · exact byte_eq_of_readNat link low first
  · exact byte_eq_of_readNat size (by omega) (by omega)

/-- The same list is stored with the same bytes. -/
theorem Chained.byte_eq (chained : Chained code r stop es) (chained' : Chained code r' stop es)
    {i : Nat} (member : i ∈ headersOf es) : r'.byte i = r.byte i := by
  induction es with
  | nil =>
    obtain ⟨e, absurd, _⟩ := member
    cases absurd
  | cons e rest ih =>
    obtain ⟨_, link, size, tail⟩ := chained
    obtain ⟨_, link', size', tail'⟩ := chained'
    obtain ⟨f, inside, low, high⟩ := member
    rcases List.mem_cons.1 inside with rfl | behind
    · exact byte_eq_of_words (link'.trans link.symm) (size'.trans size.symm) low high
    · exact ih tail tail' ⟨f, behind, low, high⟩

/-- What is changed on both sides differs only where it is not changed to the same. -/
theorem AgreesOff.side_by_side (agrees : AgreesOff before r q) (first : AgreesOff frame r r')
    (second : AgreesOff frame q q') (kept : before ⊆ after ∪ frame)
    (same : ∀ i ∈ frame, i ∉ after → q'.byte i = r'.byte i) : AgreesOff after r' q' where
  sameBase := by
    rw [second.sameBase, first.sameBase]
    exact agrees.sameBase
  sameSize := by
    rw [second.sameSize, first.sameSize]
    exact agrees.sameSize
  sameByte i outside := by
    by_cases changed : i ∈ frame
    · exact same i changed outside
    · have unlike : i ∉ before := fun inside => (kept inside).elim outside changed
      rw [second.sameByte i changed, first.sameByte i changed]
      exact agrees.sameByte i unlike

/-- Neither of two regions that agree comes first. -/
theorem AgreesOff.symm (agrees : AgreesOff before r q) : AgreesOff before q r where
  sameBase := agrees.sameBase.symm
  sameSize := agrees.sameSize.symm
  sameByte i outside := (agrees.sameByte i outside).symm

/-- The same bytes are written at the same place on both sides. -/
theorem AgreesOff.writeBytes (agrees : AgreesOff before r q) (offset : Nat) (data : List UInt8) :
    AgreesOff before (r.writeBytes offset data) (q.writeBytes offset data) where
  sameBase := by
    rw [base_writeBytes, base_writeBytes]
    exact agrees.sameBase
  sameSize := by
    rw [size_writeBytes, size_writeBytes]
    exact agrees.sameSize
  sameByte i outside := by
    have size : q.size = r.size := agrees.sameSize
    rw [byte_writeBytes, byte_writeBytes, size, agrees.sameByte i outside]

end Region

end RegionAlloc
