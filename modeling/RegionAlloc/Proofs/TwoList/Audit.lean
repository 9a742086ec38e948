import RegionAlloc.Proofs.TwoList.Runs

/-!
# The audit of a two-list heap in any state

The audit adds sizes up to the largest word. Both chains may run through any bytes here, overlap or
go backwards, as long as they end inside the region. A chain that ends comes by no block twice
(`Follows.nodup`), so it has fewer blocks than the region has bytes, and the audit gets to its end.
-/

namespace RegionAlloc.TwoList

open Block Region

variable {r : Region} {h : Heap} {chain : Chain} {es fs us : List Entry} {e : Entry}

/-- Where the link word of a block leads. -/
def link (r : Region) (node : Nat) : Option Nat :=
  if r.readWord node = Word.nil then none else some (r.readWord node)

private theorem link_eq (chained : Chained code r none (e :: es)) :
    link r e.offset = leadsTo none es := by
  obtain ⟨_, word, _, tail⟩ := chained
  unfold link
  rw [word]
  cases es with
  | nil => exact if_pos rfl
  | cons f rest =>
    have limit : r.size < 0x8000000000000000 := r.sizeLt
    have room := tail.1
    have proper : code (leadsTo none (f :: rest)) ≠ Word.nil := by
      simp only [leadsTo, code, Option.getD_some, Word.nil]
      omega
    exact if_neg proper

private theorem follows_of_chained (chained : Chained code r none es) :
    Follows (link r) (leadsTo none es) (es.map Entry.offset) := by
  induction es with
  | nil => rfl
  | cons e rest ih =>
    refine ⟨rfl, ?_⟩
    rw [link_eq chained]
    exact ih chained.2.2.2

private theorem length_le_of_chained (chained : Chained code r none es) : es.length ≤ r.size := by
  rw [← List.length_map Entry.offset]
  apply length_le_of_nodup (follows_of_chained chained).nodup
  intro o member
  obtain ⟨e, listed, rfl⟩ := List.mem_map.1 member
  have := chained.room listed
  omega

/-- A walk along a chain that ends has come by no more blocks than it could take steps. -/
theorem Heap.length_entriesFrom_le {fuel : Nat} {link : Option Nat}
    (walked : h.entriesFrom fuel link = .ok es) : es.length ≤ fuel := by
  induction fuel generalizing link es with
  | zero =>
    cases link with
    | none =>
      obtain rfl := Except.ok.inj walked
      exact Nat.le_refl 0
    | some node => cases walked
  | succ fuel ih =>
    cases link with
    | none =>
      obtain rfl := Except.ok.inj walked
      exact Nat.zero_le _
    | some node =>
      rw [Heap.entriesFrom] at walked
      obtain ⟨next, _, walked⟩ := exists_of_bind_eq_ok walked
      obtain ⟨size, _, walked⟩ := exists_of_bind_eq_ok walked
      obtain ⟨rest, later, same⟩ := exists_of_bind_eq_ok walked
      obtain rfl := Except.ok.inj same
      exact Nat.succ_le_succ (ih later)

/-- The number of blocks on a chain that ends is a word. -/
theorem Heap.length_entries_lt (walked : h.entries chain = .ok es) : es.length < 0x10000000000000000 := by
  have limit : h.region.size < 0x8000000000000000 := h.region.sizeLt
  have short := Heap.length_entriesFrom_le walked
  unfold Heap.walkBound at short
  omega

/-- **The audit is exact.** Whatever is in the region, in the two first links and in the counters,
if both chains end inside the region then the audit returns, and it approves just if, in whole
numbers, the blocks of both chains with their headers have as many bytes as the region, and the
blocks of the free chain as many as are counted as free. -/
theorem audit_is_exact (free : h.Leads .free fs none) (used : h.Leads .used us none) :
    h.isSound = .ok (decide
      ((fs.map Entry.size).sum + (us.map Entry.size).sum + 16 * (fs.length + us.length)
          = h.region.size ∧
        (fs.map Entry.size).sum = h.usage.free)) := by
  have limit : h.region.size < 0x8000000000000000 := h.region.sizeLt
  have largest : Word.nil = 0xFFFFFFFFFFFFFFFF := rfl
  have below : h.region.size < Word.nil := by omega
  have free_bytes : Heap.dataBytes fs = min (fs.map Entry.size).sum Word.nil :=
    Survey.total_ofEntries_eq_min fs
  rw [Heap.isSound, Heap.entries_of_leads free (length_le_of_chained free.chained),
    Heap.entries_of_leads used (length_le_of_chained used.chained)]
  simp only [bind, Except.bind, pure, Except.pure]
  refine congrArg Except.ok ?_
  rw [Bool.eq_iff_iff, Bool.and_eq_true, decide_eq_true_iff, decide_eq_true_iff, beq_iff_eq,
    Heap.totalBytes?_eq_some_iff below]
  -- A sum that stopped at the largest word is too much for the region by itself.
  constructor
  · rintro ⟨fills, counted⟩
    omega
  · rintro ⟨fills, counted⟩
    omega

/-- The free chain goes backwards, and past the end of the region. -/
def backwardHeap : Heap :=
  written smallRegion [(0, Word.nil), (8, 16), (40, 0), (48, 16)] (some 40) none 32

/-- The free block has the largest word for its size, and the header of the used block is inside it. -/
def overlappingHeap : Heap :=
  written smallRegion [(0, Word.nil), (8, Word.nil), (16, 33)] (some 0) (some 8) Word.nil

set_option maxRecDepth 4000 in
/-- The sums of the first heap are right. Those of the second one would be modulo `2 ^ 64`, with the free
bytes just as counted, and they are not. -/
theorem audit_is_exact_overlapping :
    backwardHeap.isSound = .ok true ∧ overlappingHeap.isSound = .ok false := by
  constructor
  · have free : backwardHeap.Leads .free [⟨40, 16⟩, ⟨0, 16⟩] none := ⟨rfl, by decide +kernel⟩
    have used : backwardHeap.Leads .used [] none := ⟨rfl, trivial⟩
    exact (audit_is_exact free used).trans (by decide +kernel)
  · have free : overlappingHeap.Leads .free [⟨0, Word.nil⟩] none := ⟨rfl, by decide +kernel⟩
    have used : overlappingHeap.Leads .used [⟨8, 33⟩] none := ⟨rfl, by decide +kernel⟩
    exact (audit_is_exact free used).trans (by decide +kernel)

end RegionAlloc.TwoList
