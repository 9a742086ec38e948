import RegionAlloc.Proofs.Allotment
import RegionAlloc.Proofs.FailedAllocation
import RegionAlloc.Proofs.Fusion

/-!
# What a client holds, from call to call

A client goes on with its memory while blocks are split and merged around it. Here the ledger of a
client is followed through single calls on the picture of its heap (`Picture.Owns`,
`Picture.Follows`): which live block each part of the memory has, which blocks an allocation or a
release leaves alone, and that the bytes in the memory stay.

That bytes stay need not be proved anew. A ledger in which all of them are noted is backed as well
(`Backed.noted`), and what is noted in a backed ledger is there (`Backed.readAt_eq`).
-/

namespace RegionAlloc

open Block

/-! ## The bytes in a client's memory -/

section Contents

variable {lead gap : Nat} {r r' : Region} {used : List Entry} {grants : List Grant} {g : Grant}

/-- The grant with all the bytes noted that are in its memory. -/
def Grant.noted (r : Region) (g : Grant) : Grant :=
  { g with
    stored := fun i => if i < g.length then some (r.byte (g.address - r.base + i)) else none }

private theorem Backed.noted (backed : Backed lead gap r used grants) :
    Backed lead gap r used (grants.map (Grant.noted r)) where
  matched := by
    rw [List.map_map]
    exact backed.matched
  fits g member := by
    obtain ⟨k, listed, rfl⟩ := List.mem_map.1 member
    exact backed.fits k listed
  kept g member i v stored := by
    obtain ⟨k, listed, rfl⟩ := List.mem_map.1 member
    change (if i < k.length then _ else none) = some v at stored
    split at stored
    · rename_i inside
      exact ⟨inside, Option.some.inj stored⟩
    · cases stored

/-- What was noted of one region is there in another one that backs the note. -/
theorem Backed.readAt_eq (backed : Backed lead gap r' used grants) (member : g.noted r ∈ grants) :
    r'.readAt g.address g.length = r.readAt g.address g.length := by
  apply List.map_congr_left
  intro i listed
  have inside := List.mem_range.1 listed
  exact (backed.kept _ member i _ (if_pos inside)).2

end Contents

/-- The client, with all the bytes in its memory noted. -/
def Client.noted {σ : Type} [HasRegion σ] (s : Client σ) : Client σ :=
  { s with grants := s.grants.map (Grant.noted (HasRegion.region s.heap)) }

/-! ## Reached clients -/

/-- A kind of heap of which clients may do what a client of any heap can do. -/
class TakesMoves (σ : Type) {μ : Type} [Allocator σ] [Managed σ μ] where
  basic : Move → μ
  performBasic : ∀ move, Managed.perform (basic move) = (Client.perform move : Call (Client σ) _)
  legalBasic : ∀ (s : Client σ) move, s.WritesOwn move → s.ReleasesOwn move →
    Managed.Legal s (basic move)

instance : TakesMoves Tagged.Heap where
  basic := .basic
  performBasic _ := rfl
  legalBasic _ _ writes releases := ⟨writes, releases⟩

instance : TakesMoves TwoList.Heap where
  basic move := move
  performBasic _ := rfl
  legalBasic _ _ writes _ := writes

namespace Client

section Reached

variable {σ : Type} {s : Client σ} {heap : σ} {address : Nat} {place : Option Nat}
  {events : List Event}

private theorem run_onHeap {α : Type} {c : Call σ α} {a : α}
    (run : c.run s.heap = ⟨.ok a, heap, events⟩) :
    (onHeap c).run s = ⟨.ok a, { s with heap }, events⟩ := by
  simp only [onHeap, run]

/-- The client keeps what the heap gives. -/
theorem exists_run_keep {c : Call σ (Option Nat)} (grant : Nat → Grant)
    (run : c.run s.heap = ⟨.ok place, heap, events⟩) :
    ∃ events', (keep c grant).run s
      = ⟨.ok place, { heap, grants := (place.map grant).toList ++ s.grants }, events'⟩ := by
  unfold keep
  rw [Call.run_bind_of_ok (run_onHeap run)]
  cases place <;> exact ⟨_, rfl⟩

/-- The client strikes off its ledger what the heap takes. -/
theorem exists_run_giveBack [Allocator σ]
    (run : (Allocator.release address : Call σ Unit).run s.heap = ⟨.ok (), heap, events⟩) :
    ∃ events', (giveBack address).run s
      = ⟨.ok none, { heap, grants := s.grants.filter fun g => g.address != address }, events'⟩ := by
  unfold giveBack
  rw [Call.run_bind_of_ok (run_onHeap run)]
  exact ⟨_, rfl⟩

variable {μ : Type} [Managed σ μ] {h : σ} {s' : Client σ}

/-- Runs of legal moves on the heap `h` lead to the client. -/
def Reached (h : σ) (s : Client σ) : Prop :=
  Call.Reachable Managed.perform Managed.Legal (start h) s

/-- Runs of legal moves lead the client on, and none of these gives back what is at the address. -/
def Keeping [ClientMove μ] (address : Nat) (s s' : Client σ) : Prop :=
  Call.Reachable Managed.perform
    (fun t move => Managed.Legal t move ∧ ClientMove.released? move ≠ some address) s s'

/-- A client that keeps its memory is still reached. -/
theorem Reached.keeping [ClientMove μ] (reached : Reached h s) (keeping : Keeping address s s') :
    Reached h s' :=
  Call.Reachable.trans reached (Call.Reachable.mono keeping fun _ _ => And.left)

variable [Allocator σ] [TakesMoves σ]

private theorem Reached.move (reached : Reached h s) (move : Move) (writes : s.WritesOwn move)
    (releases : s.ReleasesOwn move) (run : (perform move).run s = ⟨.ok place, s', events⟩) :
    Reached h s' := by
  apply Call.Reachable.step reached (TakesMoves.legalBasic s move writes releases)
  rw [TakesMoves.performBasic]
  exact run

/-- A bare attempt leads to a client that is reached, with what it gave on the ledger. -/
theorem Reached.tryAllocate (reached : Reached h s) (request : Nat) :
    (Allocator.tryAllocate request : Call σ (Option Nat)).Ensures s.heap True fun place heap =>
      Reached h { heap, grants := (place.map (Grant.fresh · request)).toList ++ s.grants } := by
  unfold Call.Ensures
  cases run : (Allocator.tryAllocate request : Call σ (Option Nat)).run s.heap with
  | mk result heap events =>
    cases result with
    | ok place =>
      obtain ⟨_, kept⟩ := exists_run_keep (Grant.fresh · request) run
      exact reached.move (.tryAllocate request) trivial trivial kept
    | error fault => trivial

/-- A release of what the client holds leads to a client that is reached. -/
theorem Reached.release (reached : Reached h s) {g : Grant} (member : g ∈ s.grants) :
    (Allocator.release g.address : Call σ Unit).Ensures s.heap True fun _ heap =>
      Reached h { heap, grants := s.grants.filter fun k => k.address != g.address } := by
  unfold Call.Ensures
  cases run : (Allocator.release g.address : Call σ Unit).run s.heap with
  | mk result heap events =>
    cases result with
    | ok _ =>
      obtain ⟨_, struck⟩ := exists_run_giveBack run
      exact reached.move (.release g.address) trivial (Or.inr ⟨g, member, rfl⟩) struck
    | error fault => trivial

/-- A write into what the client holds leads to a client that is reached. -/
theorem Reached.write (reached : Reached h s) {distance : Nat} {data : List UInt8}
    (own : s.WritesOwn (.write address distance data)) :
    Reached h
      { heap := HasRegion.modifyRegion s.heap fun region => region.writeAt (address + distance) data
        grants := s.grants.map fun g =>
          if g.address = address then g.store distance data else g } :=
  reached.move (.write address distance data) own trivial rfl

end Reached

end Client

namespace Picture

section Holdings

variable {σ μ : Type} [Allocator σ] [Managed σ μ]

/-- The heap of a client is pictured as these blocks, and the live ones back its ledger. -/
structure Owns (p : Picture σ) (s : Client σ) (blocks : List Block) : Prop where
  lies : p.Lies s.heap blocks
  base : (HasRegion.region s.heap).base = p.base
  backed : Backed p.lead p.gap (HasRegion.region s.heap) (roster true blocks) s.grants

/-- The picture follows what a client does. A request needs `need` bytes of a free block, and is
refused just if no free one has as many. An allocation leaves all live blocks as they are, a release
takes back one of them, and a write changes none. -/
structure Follows (p : Picture σ) (need : Nat → Nat) : Prop where
  serves : ∀ {heap blocks}, p.Lies heap blocks →
    Serves (¬ (Managed.usage heap).CanAllocate (Managed.overflow heap)) heap
  unchanged : ∀ (heap : σ) (request : Nat),
    (Allocator.tryAllocate request : Call σ (Option Nat)).Ensures heap True fun place heap' =>
      place = none → heap' = heap
  refuses : ∀ {heap blocks request}, p.Lies heap blocks →
    (request = 0 ∨ ∀ e ∈ roster false blocks, e.size < need request) → Refuses heap request
  allocate : ∀ {s blocks} (request : Nat), p.Owns s blocks →
    (Allocator.tryAllocate request : Call σ (Option Nat)).Ensures s.heap
      (¬ (Managed.usage s.heap).CanAllocate (Managed.overflow s.heap)) fun place heap =>
        (place = none → request = 0 ∨ ∀ e ∈ roster false blocks, e.size < need request) ∧
        ∃ blocks', p.Owns
          { heap, grants := (place.map (Grant.fresh · request)).toList ++ s.grants } blocks' ∧
          roster true blocks ⊆ roster true blocks'
  release : ∀ {s pre b post}, p.Owns s (pre ++ b :: post) → b.live = true →
    (Allocator.release (p.place b.toEntry) : Call σ Unit).Ensures s.heap
      (¬ (Managed.usage s.heap).CanFree (Managed.overflow s.heap)) fun _ heap =>
        p.Owns { heap, grants := s.grants.filter fun g => g.address != p.place b.toEntry }
          (coalesce p.gap (pre ++ b.freed :: post))
  write : ∀ {s : Client σ} {blocks address distance data}, p.Owns s blocks →
    s.WritesOwn (.write address distance data) → p.Owns
      { heap := HasRegion.modifyRegion s.heap fun region => region.writeAt (address + distance) data
        grants := s.grants.map fun g =>
          if g.address = address then g.store distance data else g } blocks

variable {p : Picture σ} {need : Nat → Nat} {s : Client σ} {blocks : List Block} {e f : Entry}
  {request : Nat}

/-- A client still owns its memory with all its bytes noted. -/
theorem Owns.noted (owns : p.Owns s blocks) : p.Owns s.noted blocks :=
  ⟨owns.lies, owns.base, owns.backed.noted⟩

/-- No two parts of the client's memory have one address. -/
theorem Owns.nodup (owns : p.Owns s blocks) : (s.grants.map Grant.address).Nodup :=
  owns.backed.nodup ((p.tiles owns.lies).spread_roster true)

/-- Each part of the client's memory has a live block. -/
theorem Owns.exists_entry (owns : p.Owns s blocks) {g : Grant} (member : g ∈ s.grants) :
    ∃ e ∈ roster true blocks, g.address = p.place e ∧ p.lead + g.length ≤ p.gap + e.size := by
  have fits := owns.backed.fits g member
  rw [owns.base] at fits
  exact fits

/-- Each live block is the client's. -/
theorem Owns.exists_grant (owns : p.Owns s blocks) (listed : e ∈ roster true blocks) :
    ∃ g ∈ s.grants, g.address = p.place e := by
  have known := owns.backed.mem_addresses.2 ⟨e, listed, rfl⟩
  rw [owns.base] at known
  exact List.mem_map.1 known

/-- No two live blocks have their memory at one address. -/
theorem Owns.eq_of_place (owns : p.Owns s blocks) (left : e ∈ roster true blocks)
    (right : f ∈ roster true blocks) (same : p.place e = p.place f) : e = f := by
  have spread := (p.tiles owns.lies).spread_roster true
  by_contra different
  have apart := spread.disjoint left right different
  have room := spread.room e left
  have room' := spread.room f right
  unfold place at same
  omega

/-- What an allocation gives: so many bytes at `address`, in the block `e`, which is the only one that
became live. All that the client held before lies apart from them and keeps its bytes. -/
structure Gave (p : Picture σ) (s : Client σ) (live : List Entry) (request address : Nat) (heap : σ)
    (live' : List Entry) (e : Entry) : Prop where
  place : address = p.place e
  room : p.lead + request ≤ p.gap + e.size
  fresh : e ∉ live
  live : ∀ f, f ∈ live' ↔ f = e ∨ f ∈ live
  apart : ∀ g ∈ s.grants, address + request ≤ g.address ∨ g.address + g.length ≤ address
  contents : ∀ g ∈ s.grants, (HasRegion.region heap).readAt g.address g.length
    = (HasRegion.region s.heap).readAt g.address g.length

/-- What a release takes back: the block `e`, which is the only one that is live no more. It is fused
with the free ones that touch it. The rest of what the client holds keeps its bytes. -/
structure TookBack (p : Picture σ) (s : Client σ) (free live : List Entry) (e : Entry) (heap : σ)
    (free' live' : List Entry) : Prop where
  live : ∀ f, f ∈ live' ↔ f ∈ live ∧ f ≠ e
  fused : ∃ whole merges, Fused p.gap e free free' whole merges
  contents : ∀ g ∈ s.grants, g.address ≠ p.place e →
    (HasRegion.region heap).readAt g.address g.length
      = (HasRegion.region s.heap).readAt g.address g.length

namespace Follows

variable (follows : p.Follows need)

include follows

/-- A request is refused just if nothing was asked for or no free block has enough bytes. -/
theorem refuses_iff (owns : p.Owns s blocks) :
    Refuses s.heap request ↔ request = 0 ∨ ∀ e ∈ roster false blocks, e.size < need request := by
  constructor
  · intro refuses
    have answered := follows.allocate request owns
    cases run : Allocator.attempt s.heap request with
    | mk result heap events =>
      rw [Refuses, run] at refuses
      obtain rfl : result = .ok none := refuses
      exact (answered.post_of_run run).1 rfl
  · exact follows.refuses owns.lies

/-- An allocation that fails on such a heap fails cleanly. -/
theorem clean (owns : p.Owns s blocks) :
    FailsCleanly (¬ (Managed.usage s.heap).CanAllocate (Managed.overflow s.heap)) s.heap :=
  (follows.serves owns.lies).failsCleanly (follows.unchanged s.heap)

/-- What a free block has room for is not refused. -/
theorem not_refuses (owns : p.Owns s blocks) (asked : 0 < request)
    (room : ∃ e ∈ roster false blocks, need request ≤ e.size) : ¬ Refuses s.heap request := by
  intro refuses
  obtain ⟨e, listed, fits⟩ := room
  rcases (follows.refuses_iff owns).1 refuses with nothing | crowded
  · exact Nat.ne_of_gt asked nothing
  · exact Nat.not_lt.2 fits (crowded e listed)

/-- What is not refused is given. Only a full counter can stop it. -/
theorem gives (owns : p.Owns s blocks) (goes : ¬ Refuses s.heap request) :
    (Allocator.tryAllocate request : Call σ (Option Nat)).Ensures s.heap
      (¬ (Managed.usage s.heap).CanAllocate (Managed.overflow s.heap)) fun place heap =>
        ∃ address blocks' e, place = some address ∧
          p.Owns { heap, grants := Grant.fresh address request :: s.grants } blocks' ∧
          p.Gave s (roster true blocks) request address heap (roster true blocks') e := by
  have noted := (follows.allocate request owns.noted).mono (fun _ => trivial) fun _ _ => id
  apply ((follows.allocate request owns).and noted).mono id
  intro place heap both
  obtain ⟨⟨absent, blocks', owns', others⟩, _, blocks'', noted', _⟩ := both
  cases place with
  | none => exact absurd ((follows.refuses_iff owns).2 (absent rfl)) goes
  | some address =>
    obtain ⟨e, listed, place, room⟩ := owns'.exists_entry List.mem_cons_self
    have apart := owns'.backed.pairwise ((p.tiles owns'.lies).spread_roster true)
    refine ⟨address, blocks', e, rfl, owns', place, room, ?_, fun f => ⟨?_, ?_⟩,
      (List.pairwise_cons.1 apart).1, ?_⟩
    · intro older
      obtain ⟨g, member, same⟩ := owns.exists_grant older
      apply (List.nodup_cons.1 owns'.nodup).1
      exact List.mem_map.2 ⟨g, member, same.trans place.symm⟩
    · intro also
      obtain ⟨g, member, same⟩ := owns'.exists_grant also
      rcases List.mem_cons.1 member with rfl | older
      · exact Or.inl (owns'.eq_of_place also listed (same.symm.trans place))
      · obtain ⟨f', known, place', _⟩ := owns.exists_entry older
        obtain rfl := owns'.eq_of_place also (others known) (same.symm.trans place')
        exact Or.inr known
    · intro known
      rcases known with rfl | older
      · exact listed
      · exact others older
    · intro g member
      apply noted'.backed.readAt_eq
      exact List.mem_cons_of_mem _ (List.mem_map_of_mem member)

/-- A live block is taken back when its memory is released. -/
theorem takes_back (owns : p.Owns s blocks) (listed : e ∈ roster true blocks) :
    (Allocator.release (p.place e) : Call σ Unit).Ensures s.heap
      (¬ (Managed.usage s.heap).CanFree (Managed.overflow s.heap)) fun _ heap => ∃ blocks',
        p.Owns { heap, grants := s.grants.filter fun g => g.address != p.place e } blocks' ∧
        p.TookBack s (roster false blocks) (roster true blocks) e heap (roster false blocks')
          (roster true blocks') := by
  obtain ⟨pre, b, post, rfl, live, rfl⟩ := exists_parts listed
  have noted := (follows.release owns.noted live).mono (fun _ => trivial) fun _ _ => id
  apply ((follows.release owns live).and noted).mono id
  intro _ heap both
  obtain ⟨owns', noted'⟩ := both
  have tiles := p.tiles owns.lies
  refine ⟨_, owns', ?_, (p.settled owns.lies).fused live tiles, ?_⟩
  · intro f
    rw [roster_released tiles live, List.mem_filter, decide_eq_true_iff]
    apply and_congr_right
    intro also
    exact not_congr ⟨owns.eq_of_place also listed, congrArg p.place⟩
  · intro g member other
    apply noted'.backed.readAt_eq
    apply List.mem_filter.2
    exact ⟨List.mem_map_of_mem member, bne_iff_ne.2 other⟩

/-- An allocation moves no live block. -/
theorem allocate_stays (owns : p.Owns s blocks) (request : Nat) :
    (Allocator.allocate request : Call σ (Option Nat)).Ensures s.heap True fun place heap =>
      ∃ blocks', p.Owns
        { heap, grants := (place.map (Grant.fresh · request)).toList ++ s.grants } blocks' ∧
        roster true blocks ⊆ roster true blocks' :=
  Client.ensures_allocate
    ((follows.allocate request owns).mono (fun _ => trivial) fun _ _ => And.right)

/-- Of the live blocks a release moves at most the one at its address. -/
theorem release_stays (owns : p.Owns s blocks) {address : Nat}
    (ignored : (∀ e ∈ roster true blocks, address ≠ p.place e) →
      (Allocator.release address : Call σ Unit).Ensures s.heap True fun _ heap => heap = s.heap) :
    (Allocator.release address : Call σ Unit).Ensures s.heap True fun _ heap =>
      ∃ blocks', p.Owns { heap, grants := s.grants.filter fun g => g.address != address } blocks' ∧
        ∀ e ∈ roster true blocks, address ≠ p.place e → e ∈ roster true blocks' := by
  by_cases owned : ∃ e ∈ roster true blocks, address = p.place e
  · obtain ⟨e, listed, rfl⟩ := owned
    apply (follows.takes_back owns listed).mono fun _ => trivial
    intro _ heap taken
    obtain ⟨blocks', owns', took⟩ := taken
    refine ⟨blocks', owns', fun f also other => (took.live f).2 ⟨also, ?_⟩⟩
    intro same
    exact other (congrArg p.place same.symm)
  · have foreign : ∀ e ∈ roster true blocks, address ≠ p.place e :=
      fun e listed same => owned ⟨e, listed, same⟩
    apply (ignored foreign).mono fun _ => trivial
    intro _ heap same
    subst same
    have ledger : (s.grants.filter fun g => g.address != address) = s.grants := by
      apply owns.backed.filter_eq_self
      rw [owns.base]
      exact foreign
    rw [ledger]
    exact ⟨blocks, owns, fun e listed _ => listed⟩

/-- Of the live blocks a client's move moves at most the one that it gives back. -/
theorem move_stays (owns : p.Owns s blocks) {move : Move} (writes : s.WritesOwn move)
    (ignored : ∀ address, move = .release address →
      (∀ e ∈ roster true blocks, address ≠ p.place e) →
        (Allocator.release address : Call σ Unit).Ensures s.heap True fun _ heap => heap = s.heap) :
    (Client.perform move).Ensures s True fun _ s' => ∃ blocks', p.Owns s' blocks' ∧
      ∀ e ∈ roster true blocks, ClientMove.released? move ≠ some (p.place e) →
        e ∈ roster true blocks' := by
  cases move with
  | allocate request =>
    apply Client.ensures_keep
    apply (follows.allocate_stays owns request).mono id
    intro place heap kept
    obtain ⟨blocks', owns', others⟩ := kept
    exact ⟨blocks', owns', fun e listed _ => others listed⟩
  | tryAllocate request =>
    apply Client.ensures_keep
    apply (follows.allocate request owns).mono fun _ => trivial
    intro place heap answered
    obtain ⟨_, blocks', owns', others⟩ := answered
    exact ⟨blocks', owns', fun e listed _ => others listed⟩
  | release address =>
    apply Client.ensures_giveBack
    apply (follows.release_stays owns (ignored address rfl)).mono id
    intro _ heap released
    obtain ⟨blocks', owns', others⟩ := released
    exact ⟨blocks', owns', fun e listed other => others e listed fun same => other (congrArg some same)⟩
  | write address distance data =>
    apply Client.ensures_write
    exact ⟨blocks, follows.write owns writes, fun e listed _ => listed⟩

end Follows

/-- A legal move of the client moves no live block but the one that it gives back. -/
def Stays [ClientMove μ] (p : Picture σ) : Prop :=
  ∀ {s : Client σ} {blocks : List Block} {move : μ}, p.Owns s blocks → Managed.Legal s move →
    (Managed.perform move).Ensures s True fun _ s' => ∃ blocks', p.Owns s' blocks' ∧
      ∀ e ∈ roster true blocks, ClientMove.released? move ≠ some (p.place e) →
        e ∈ roster true blocks'

/-- A block stays live until the client gives it back. -/
theorem Owns.keeping [ClientMove μ] {p : Picture σ} {s s' : Client σ} {blocks : List Block}
    {e : Entry} (owns : p.Owns s blocks) (stays : p.Stays) (listed : e ∈ roster true blocks)
    (keeping : Client.Keeping (p.place e) s s') :
    ∃ blocks', p.Owns s' blocks' ∧ e ∈ roster true blocks' := by
  apply Call.Reachable.invariant
    (I := fun t => ∃ blocks', p.Owns t blocks' ∧ e ∈ roster true blocks') keeping
    ⟨blocks, owns, listed⟩
  intro t move holds legal
  obtain ⟨blocks', owns', still⟩ := holds
  apply (stays owns' legal.1).mono fun _ => trivial
  intro _ t' moved
  obtain ⟨blocks'', owns'', others⟩ := moved
  exact ⟨blocks'', owns'', others e still legal.2⟩

end Holdings

end Picture

/-! ## Both kinds of heap -/

private theorem Allocator.refuses_of_ensures {σ : Type} [Allocator σ] {heap : σ} {request : Nat}
    (fails : (tryAllocate request : Call σ (Option Nat)).Ensures heap False fun place _ =>
      place = none) : Refuses heap request := by
  obtain ⟨place, heap', events, run⟩ := fails.returns id
  obtain rfl : place = none := fails.post_of_run run
  exact congrArg Outcome.result run

namespace Tagged

variable {h : Heap} {s : Client Heap} {blocks : List Block}

/-- To own a picture of a tagged heap is to hold the heap. -/
theorem owns_iff : (picture h).Owns s blocks ↔ Held h s blocks := by
  constructor
  · intro owns
    obtain ⟨⟨laid, same⟩, _, backed⟩ := owns
    refine ⟨laid, ?_, same⟩
    rw [same.headerSize_eq]
    exact backed
  · intro held
    refine ⟨⟨held.laid, held.same⟩, held.same.base, ?_⟩
    have backed := held.backed
    rw [held.same.headerSize_eq] at backed
    exact backed

/-- A tagged heap follows its picture: a request needs its header and is rounded up to the
alignment. -/
theorem follows (h : Heap) : (picture h).Follows fun request =>
    Word.roundUp (request + h.headerSize) h.settings.alignment where
  serves lies := lies.1.serves
  unchanged := Heap.tryAllocate_unchanged
  refuses := by
    intro heap blocks request lies short
    obtain ⟨laid, same⟩ := lies
    have valid := laid.formed.valid
    have needs := Settings.needs_roundUp valid request
    apply Allocator.refuses_of_ensures
    refine (Heap.tryAllocate_fails laid (short.imp_right ?_)).mono id fun _ _ => And.left
    intro short padded padding c member both
    obtain rfl := needs.eq_of_paddedSize? valid padding
    have small := short c.toEntry (mem_roster.2 ⟨c, member, both.1, rfl⟩)
    change c.size < Word.roundUp (request + h.settings.headerSize) h.settings.alignment at small
    rw [← same.settings] at small
    exact absurd both.2 (Nat.not_le.2 small)
  allocate := by
    intro s blocks request owns
    have held := owns_iff.1 owns
    have kept : (Heap.tryAllocate request).Ensures s.heap True fun place heap =>
        ∃ blocks', (picture h).Owns
          { heap, grants := (place.map (Grant.fresh · request)).toList ++ s.grants } blocks' ∧
          roster true blocks ⊆ roster true blocks' := by
      apply (Heap.tryAllocate_ensures held.laid request).mono fun _ => trivial
      intro place heap allocation
      cases allocation with
      | refused nowhere => exact ⟨blocks, owns, List.Subset.refl _⟩
      | @granted pre post b padded _ parts free padding fits first allocated =>
        subst parts
        refine ⟨_, owns_iff.2 (held.granted allocated free padding fits), ?_⟩
        rw [roster_true_of_free free, roster_true_carved]
        exact (List.Sublist.append_left (List.sublist_cons_self _ _) _).subset
    apply ((allots h request owns.lies).and kept).mono id
    intro place heap both
    refine ⟨?_, both.2⟩
    intro absent
    subst absent
    cases both.1 with
    | refused nowhere => exact nowhere.imp_right size_lt_of_none_fits
  release := by
    intro s pre b post owns live
    have held := owns_iff.1 owns
    have place : (picture h).place b.toEntry
        = s.heap.region.base + (b.offset + s.heap.headerSize) := by
      rw [held.same.base, held.same.headerSize_eq]
      rfl
    rw [place]
    apply (Heap.release_live held.laid live).mono id
    intro _ heap released
    exact owns_iff.2 (held.released released live)
  write owns own := owns_iff.2 (held_write (owns_iff.1 owns) own)

/-- What the client gives back is a live block, or the null address, which is ignored. -/
theorem release_ignored (owns : (picture h).Owns s blocks) {address : Nat}
    (owned : address = 0 ∨ ∃ g ∈ s.grants, g.address = address)
    (foreign : ∀ e ∈ roster true blocks, address ≠ (picture h).place e) :
    (Heap.release address).Ensures s.heap True fun _ heap => heap = s.heap := by
  have null : address = 0 := by
    apply owned.resolve_right
    intro granted
    obtain ⟨g, member, rfl⟩ := granted
    obtain ⟨e, listed, place, _⟩ := owns.exists_entry member
    exact foreign e listed place
  subst null
  exact (Heap.release_null s.heap).mono (fun _ => trivial) fun _ _ => id

/-- A legal move on a tagged heap moves no live block but the one that it gives back. -/
theorem stays (h : Heap) : (picture h).Stays := by
  intro s blocks move owns legal
  cases move with
  | basic move =>
    obtain ⟨writes, releases⟩ := legal
    apply (follows h).move_stays owns writes
    intro address same
    subst same
    exact release_ignored owns releases
  | allocateZeroed count size =>
    apply Client.ensures_keep
    apply Client.ensures_zeroedBy ⟨blocks, owns, fun e listed _ => listed⟩
      ((follows h).allocate_stays owns (count * size))
    · intro heap refused
      obtain ⟨blocks', owns', others⟩ := refused
      exact ⟨blocks', owns', fun e listed _ => others listed⟩
    · intro address heap given
      obtain ⟨blocks', owns', others⟩ := given
      have zeroed := held_zeroed (s := { s with heap }) (owns_iff.1 owns')
      exact ⟨blocks', owns_iff.2 zeroed, fun e listed _ => others listed⟩
  | onFailure hook =>
    exact Call.Ensures.of_run rfl ⟨blocks, owns_iff.2 ((owns_iff.1 owns).recount (some hook) rfl),
      fun e listed _ => listed⟩
  | resetLowWater =>
    exact Call.Ensures.of_run rfl ⟨blocks, owns_iff.2 ((owns_iff.1 owns).recount s.heap.hook rfl),
      fun e listed _ => listed⟩

end Tagged

namespace TwoList

variable {region : Region} {s : Client Heap} {blocks : List Block}

/-- To own a picture of a two-list heap is to hold the heap. -/
theorem owns_iff : (picture region).Owns s blocks ↔ Held region s blocks := by
  constructor
  · intro owns
    obtain ⟨⟨laid, base, size⟩, _, backed⟩ := owns
    exact ⟨laid, backed, base, size⟩
  · intro held
    exact ⟨⟨held.laid, held.base, held.size⟩, held.base, held.backed⟩

/-- A two-list heap follows its picture: a request needs just its bytes. -/
theorem follows (region : Region) : (picture region).Follows fun request => request where
  serves lies := lies.1.serves
  unchanged := Heap.tryAllocate_unchanged
  refuses := by
    intro heap blocks request lies short
    apply Allocator.refuses_of_ensures
    refine (Heap.tryAllocate_fails lies.1 (short.imp_right ?_)).mono id fun _ _ => And.left
    intro short c member both
    have small := short c.toEntry (mem_roster.2 ⟨c, member, both.1, rfl⟩)
    exact absurd both.2 (Nat.not_le.2 small)
  allocate := by
    intro s blocks request owns
    have held := owns_iff.1 owns
    apply (Heap.tryAllocate_ensures held.laid request).mono id
    intro place heap allocation
    cases allocation with
    | refused nowhere =>
      exact ⟨fun _ => nowhere.imp_right size_lt_of_none_fits, blocks, owns, List.Subset.refl _⟩
    | @granted pre post b _ parts free fits first allocated =>
      subst parts
      refine ⟨(fun absurd => by cases absurd), _, owns_iff.2 (held.granted allocated free fits), ?_⟩
      rw [roster_true_of_free free, roster_true_carved]
      exact (List.Sublist.append_left (List.sublist_cons_self _ _) _).subset
  release := by
    intro s pre b post owns live
    have held := owns_iff.1 owns
    have place : (picture region).place b.toEntry = s.heap.region.base + (b.offset + 16) := by
      rw [held.base]
      rfl
    rw [place]
    apply (Heap.release_live held.laid live).mono id
    intro _ heap released
    exact owns_iff.2 (held.released released live)
  write owns own := owns_iff.2 (held_write (owns_iff.1 owns) own)

/-- A legal move on a two-list heap moves no live block but the one that it gives back. -/
theorem stays (region : Region) : (picture region).Stays := by
  intro s blocks move owns legal
  apply (follows region).move_stays owns legal
  intro address _ foreign
  have elsewhere : ∀ e ∈ roster true blocks, address ≠ s.heap.region.base + (e.offset + 16) := by
    rw [(owns_iff.1 owns).base]
    exact foreign
  exact Call.Ensures.of_run (Heap.run_release_foreign owns.lies.1 elsewhere) rfl

end TwoList

end RegionAlloc
