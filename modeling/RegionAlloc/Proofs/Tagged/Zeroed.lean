import RegionAlloc.Proofs.Together
import RegionAlloc.Proofs.Undo

/-!
# Memory full of zeros

An allocation of zeros is an allocation of as many bytes, whatever that comes to, and then a write of
zeros over what it gave. The block may have more bytes than were asked for; they are left alone, as is
everything in front of the memory and behind it (`allocateZeroed_is_allocate_then_zero`).
-/

namespace RegionAlloc

/-! ## The run -/

section Runs

variable {σ : Type} [HasRegion σ] (allocate : Nat → Call σ (Option Nat)) {count size : Nat}

private theorem Allocator.run_zeroedBy_of_overflow (large : 0x10000000000000000 ≤ count * size)
    (heap : σ) :
    (zeroedBy allocate count size).run heap = ⟨.ok none, heap, []⟩ := by
  have product : Word.mul? count size = none := Word.ofNat?_eq_none.2 large
  unfold zeroedBy
  rw [product]
  rfl

/-- What was given is overwritten, and nothing else is done. -/
theorem Allocator.run_zeroedBy (small : count * size < 0x10000000000000000) (heap : σ) :
    (zeroedBy allocate count size).run heap
      = { (allocate (count * size)).run heap with
          state := Client.zeroedAt (count * size)
            ((allocate (count * size)).run heap).result.toOption.join
            ((allocate (count * size)).run heap).state } := by
  have product : Word.mul? count size = some (count * size) := Word.ofNat?_eq_some.2 ⟨rfl, small⟩
  unfold zeroedBy
  simp only [product]
  cases run : (allocate (count * size)).run heap with
  | mk result heap' events =>
    cases result with
    | error fault => exact Call.run_bind_of_error run
    | ok place =>
      rw [Call.run_bind_of_ok run]
      cases place with
      | none => exact congrArg (Outcome.mk _ _) (List.append_nil events)
      | some address => exact congrArg (Outcome.mk _ _) (List.append_nil events)

end Runs

namespace Tagged

open Block Region

variable {region : Region} {settings : Settings} {overflow : Overflow} {h : Heap}
  {s : Client Heap} {blocks : List Block} {address bytes count size : Nat}

/-- Two heaps show the same blocks, one of them live with `bytes` bytes for the client at `address`.
These are zero in the second heap, and all other bytes are as in the first. None of them belongs to a
header or to memory that the client held before. -/
structure ZeroedIn (h : Heap) (grants : List Grant) (address bytes : Nat) (plain zeroed : Heap)
    (blocks : List Block) : Prop where
  zeros : zeroed.region.readAt address bytes = List.replicate bytes 0
  others : AgreesOff {i | address ≤ h.region.base + i ∧ h.region.base + i < address + bytes}
    plain.region zeroed.region
  shown : plain.Shows h.start blocks
  stillShown : zeroed.Shows h.start blocks
  payload : ∃ b ∈ blocks, b.live = true ∧
    address = h.region.base + (b.offset + h.headerSize) ∧ h.headerSize + bytes ≤ b.size
  offHeaders : ∀ b ∈ blocks, address + bytes ≤ h.region.base + b.offset ∨
    h.region.base + b.offset + 16 ≤ address
  offMarker : address + bytes ≤ h.region.base + h.endMarker
  apart : ∀ g ∈ grants, address + bytes ≤ g.address ∨ g.address + g.length ≤ address

/-- What an allocation of zeros comes to, seen from what one of as many bytes comes to. The result and
the events are the same, hooks that rang among them, and so are the free list and the counters. Without
memory the heaps are the same; with memory they differ in that. -/
structure ZeroesWhatIsGiven (h : Heap) (grants : List Grant) (bytes : Nat)
    (plain zeroed : Outcome Heap (Option Nat)) : Prop where
  result : zeroed.result = plain.result
  events : zeroed.events = plain.events
  usage : zeroed.state.usage = plain.state.usage
  head : zeroed.state.headLink = plain.state.headLink
  listed : zeroed.state.freeBlocks = plain.state.freeBlocks
  nothing : (∀ address, plain.result ≠ .ok (some address)) → zeroed = plain
  given : ∀ address, plain.result = .ok (some address) →
    ∃ blocks, ZeroedIn h grants address bytes plain.state zeroed.state blocks

/-- Memory that was handed out last lies in a block of its own, off all headers. -/
theorem Held.zeroedIn {heap : Heap} {grants : List Grant}
    (held : Held h { heap, grants := Grant.fresh address bytes :: grants } blocks) :
    ZeroedIn h grants address bytes heap (Client.zeroedAt bytes (some address) heap) blocks := by
  have zeroed := held_zeroed (s := { heap, grants }) held
  obtain ⟨laid, backed, same⟩ := held
  have base : heap.region.base = h.region.base := same.base
  have header : heap.headerSize = h.headerSize := same.headerSize_eq
  have shown : heap.Shows h.start blocks := same.start ▸ laid.shows
  have safe := backed.safe laid.tiles heap.settings.sixteen_le_headerSize
  obtain ⟨e, listed, place, room⟩ := backed.fits _ List.mem_cons_self
  obtain ⟨b, member, live, rfl⟩ := mem_roster.1 listed
  have inside : heap.endMarker + 16 ≤ heap.region.size := laid.inside
  have below : address + bytes ≤ heap.region.base + heap.endMarker :=
    (safe.inside _ List.mem_cons_self).2
  have offHeaders := safe.offHeaders _ List.mem_cons_self
  have apart := (List.pairwise_cons.1 safe.apart).1
  change address = heap.region.base + (b.offset + heap.headerSize) at place
  change heap.headerSize + bytes ≤ 0 + b.size at room
  rw [Nat.zero_add] at room
  refine ⟨?_, ?_, shown, zeroed.shows, ?_, ?_, ?_, apart⟩
  · have back := heap.region.readAt_writeAt address (List.replicate bytes 0)
      (by rw [List.length_replicate]; omega)
    rwa [List.length_replicate] at back
  · rw [← base]
    apply agreesOff_writeBytes
    intro i low under
    rw [List.length_replicate] at under
    exact ⟨by omega, by omega⟩
  · rw [← base, ← header]
    exact ⟨b, member, live, place, room⟩
  · rw [← base]
    intro c listed
    exact offHeaders c.toEntry (List.mem_map_of_mem listed)
  · rw [← base, ← same.endMarker]
    exact below

/-- **Zeros are written over what an allocation gives, and nowhere else**, in every reachable heap. If
no word holds the number of bytes there is nothing: no memory, no change, no record and no hook. -/
theorem allocateZeroed_is_allocate_then_zero (created : Heap.create region settings overflow = .ok h)
    (reached : Reached h s) (count size : Nat) :
    (0x10000000000000000 ≤ count * size →
      (Heap.allocateZeroed count size).run s.heap = ⟨.ok none, s.heap, []⟩) ∧
    (count * size < 0x10000000000000000 →
      ZeroesWhatIsGiven h s.grants (count * size) ((Allocator.allocate (count * size)).run s.heap)
        ((Heap.allocateZeroed count size).run s.heap)) := by
  constructor
  · intro large
    exact Allocator.run_zeroedBy_of_overflow _ large s.heap
  intro small
  obtain ⟨blocks, held⟩ := held_reached created reached
  have run := Allocator.run_zeroedBy (Allocator.allocate (σ := Heap)) small s.heap
  have handed := Client.ensures_allocate (held_allocate held (count * size))
  unfold Heap.allocateZeroed
  rw [run]
  cases plain : (Allocator.allocate (count * size) : Call Heap (Option Nat)).run s.heap with
  | mk result heap events =>
    cases result with
    | error fault =>
      exact ⟨rfl, rfl, rfl, rfl, rfl, fun _ => rfl, fun _ given => by cases given⟩
    | ok place =>
      cases place with
      | none => exact ⟨rfl, rfl, rfl, rfl, rfl, fun _ => rfl, fun _ given => by cases given⟩
      | some address =>
        obtain ⟨⟨blocks', held'⟩, _⟩ := handed.post_of_run plain
        have zeroed := held_zeroed (s := { s with heap }) held'
        refine ⟨rfl, rfl, rfl, rfl, ?_, fun absent => absurd rfl (absent address), ?_⟩
        · exact zeroed.laid.freeBlocks_eq.trans held'.laid.freeBlocks_eq.symm
        · intro address' given
          cases given
          exact ⟨blocks', held'.zeroedIn⟩

/-- One zero of one byte is stored where a block was released before. As many zeros as no word counts
are none. -/
theorem allocateZeroed_is_allocate_then_zero_gappedRun : ∃ (h : Heap) (s : Client Heap)
    (plain : Outcome Heap (Option Nat)) (blocks : List Block),
    s.grants.map Grant.address = [4160] ∧
    (Allocator.allocate (1 * 1) : Call Heap (Option Nat)).run s.heap = plain ∧
    plain.result = .ok (some 4128) ∧
    ZeroesWhatIsGiven h s.grants (1 * 1) plain ((Heap.allocateZeroed 1 1).run s.heap) ∧
    ZeroedIn h s.grants 4128 (1 * 1) plain.state ((Heap.allocateZeroed 1 1).run s.heap).state blocks ∧
    (Heap.allocateZeroed 0x100000000 0x100000000).run s.heap = ⟨.ok none, s.heap, []⟩ := by
  obtain ⟨h, s, between, events, created, reached, granted, run⟩ := allocate_gappedRun
  have small := (allocateZeroed_is_allocate_then_zero created reached 1 1).2 (by decide)
  have large := (allocateZeroed_is_allocate_then_zero created reached 0x100000000 0x100000000).1
    (by decide)
  rw [show 1 * 1 = 1 from rfl, run] at small
  obtain ⟨blocks, zeroed⟩ := small.given 4128 rfl
  exact ⟨h, s, _, blocks, granted, run, rfl, small, zeroed, large⟩

end Tagged

end RegionAlloc
