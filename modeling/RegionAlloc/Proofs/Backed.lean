import Mathlib.Data.List.Nodup
import RegionAlloc.Proofs.Carve
import RegionAlloc.Proofs.Client
import RegionAlloc.Proofs.Coalesce

/-!
# Ledgers backed by used blocks

A ledger is backed if its grants are the payloads of the used blocks, one for one, each large enough
for what was asked for, and if every byte that the client stored is still there (`Backed`). Handing
out a block, taking one back and a write of the client keep a ledger backed, as long as the heap
leaves the payloads of the other used blocks alone. In a tiling, a backed ledger is safe memory
(`Backed.safe`).
-/

namespace RegionAlloc

/-- Each grant is the payload of one of the used blocks, and each used block is granted. A payload
begins `lead` bytes behind its block's offset; a block takes up `gap` bytes besides its size. -/
structure Backed (lead gap : Nat) (r : Region) (used : List Entry) (grants : List Grant) : Prop where
  matched : (grants.map Grant.address).Perm (used.map fun e => r.base + (e.offset + lead))
  fits : ∀ g ∈ grants, ∃ e ∈ used,
    g.address = r.base + (e.offset + lead) ∧ lead + g.length ≤ gap + e.size
  kept : ∀ g ∈ grants, ∀ i v, g.stored i = some v →
    i < g.length ∧ r.byte (g.address - r.base + i) = v

/-- The memory of a client is safe: it lies between two addresses, no grant overlaps another one or a
header, and what the client stored is still there. -/
structure SafeMemory (low high : Nat) (headers : List Entry) (r : Region) (grants : List Grant) :
    Prop where
  inside : ∀ g ∈ grants, low ≤ g.address ∧ g.address + g.length ≤ high
  apart : grants.Pairwise fun g h =>
    g.address + g.length ≤ h.address ∨ h.address + h.length ≤ g.address
  offHeaders : ∀ g ∈ grants, ∀ e ∈ headers,
    g.address + g.length ≤ r.base + e.offset ∨ r.base + e.offset + 16 ≤ g.address
  kept : ∀ g ∈ grants, ∀ i v, g.stored i = some v →
    i < g.length ∧ r.byte (g.address - r.base + i) = v

namespace Backed

variable {lead gap start stop : Nat} {r r' : Region} {used pre post : List Entry} {e : Entry}
  {grants : List Grant} {g : Grant} {blocks : List Block}

/-- No memory is backed by no blocks. -/
theorem nil (lead gap : Nat) (r : Region) : Backed lead gap r [] [] where
  matched := List.Perm.nil
  fits g member := by cases member
  kept g member := by cases member

/-- A region with the same payloads backs the same ledger. -/
theorem congr (backed : Backed lead gap r used grants) (base : r'.base = r.base)
    (same : ∀ e ∈ used, ∀ i, e.offset + lead ≤ i → i < e.offset + (gap + e.size) →
      r'.byte i = r.byte i) : Backed lead gap r' used grants where
  matched := by
    rw [base]
    exact backed.matched
  fits := by
    rw [base]
    exact backed.fits
  kept g member i v stored := by
    obtain ⟨inside, byte⟩ := backed.kept g member i v stored
    obtain ⟨e, listed, address, room⟩ := backed.fits g member
    refine ⟨inside, ?_⟩
    rw [base, same e listed _ (by omega) (by omega)]
    exact byte

/-- Changes to headers of blocks alone leave a ledger backed. -/
theorem off_headers (backed : Backed lead gap r used grants) (header : 16 ≤ lead)
    (tiles : Block.Tiles gap start blocks stop) (listed : used ⊆ blocks.map Block.toEntry)
    (agrees : Region.AgreesOff (Block.headers blocks) r r') : Backed lead gap r' used grants := by
  refine backed.congr agrees.sameBase fun e member i low high => agrees.sameByte i ?_
  obtain ⟨b, inside, rfl⟩ := List.mem_map.1 (listed member)
  exact tiles.not_mem_headers inside (by omega) high

/-- A block that was handed out backs a new grant. -/
theorem insert (backed : Backed lead gap r (pre ++ post) grants)
    (address : g.address = r.base + (e.offset + lead)) (room : lead + g.length ≤ gap + e.size)
    (kept : ∀ i v, g.stored i = some v → i < g.length ∧ r.byte (g.address - r.base + i) = v) :
    Backed lead gap r (pre ++ e :: post) (g :: grants) where
  matched := by
    rw [List.map_cons, List.map_append, List.map_cons, address]
    refine List.Perm.trans (List.Perm.cons _ ?_) List.perm_middle.symm
    rw [← List.map_append]
    exact backed.matched
  fits h member := by
    rcases List.mem_cons.1 member with rfl | older
    · exact ⟨e, List.mem_append_right _ List.mem_cons_self, address, room⟩
    · obtain ⟨f, listed, place, space⟩ := backed.fits h older
      refine ⟨f, ?_, place, space⟩
      rcases List.mem_append.1 listed with before | after
      · exact List.mem_append_left _ before
      · exact List.mem_append_right _ (List.mem_cons_of_mem _ after)
  kept h member := by
    rcases List.mem_cons.1 member with rfl | older
    · exact kept
    · exact backed.kept h older

/-- A free block, cut or whole, backs a new grant when it is handed out. -/
theorem carved {slack n length : Nat} {pre post : List Block} {b : Block}
    (backed : Backed lead gap r (Block.roster true (pre ++ b :: post)) grants)
    (free : b.live = false) (header : 16 ≤ lead)
    (tiles : Block.Tiles gap start (pre ++ (Block.carve gap slack n b ++ post)) stop)
    (agrees : Region.AgreesOff (Block.headers (pre ++ (Block.carve gap slack n b ++ post))) r r')
    (fits : n ≤ b.size) (room : lead + length ≤ gap + n) :
    Backed lead gap r' (Block.roster true (pre ++ (Block.carve gap slack n b ++ post)))
      (Grant.fresh (r.base + (b.offset + lead)) length :: grants) := by
  have listed := Block.roster_subset true (pre ++ (Block.carve gap slack n b ++ post))
  rw [Block.roster_true_of_free free] at backed
  rw [Block.roster_true_carved] at listed ⊢
  have others : Block.roster true pre ++ Block.roster true post
      ⊆ Block.roster true pre ++ (Block.taken slack n b).toEntry :: Block.roster true post :=
    (List.Sublist.append_left (List.sublist_cons_self _ _) _).subset
  have kept := backed.off_headers header tiles (List.Subset.trans others listed) agrees
  refine kept.insert ?_ ?_ ?_
  · change r.base + (b.offset + lead) = r'.base + (b.offset + lead)
    rw [agrees.sameBase]
  · have enough : n ≤ Block.takenSize slack n b.size := Block.le_takenSize fits
    change lead + length ≤ gap + Block.takenSize slack n b.size
    omega
  · intro i v stored
    cases stored

/-- The addresses in the ledger are those of the used blocks. -/
theorem mem_addresses (backed : Backed lead gap r used grants) {address : Nat} :
    address ∈ grants.map Grant.address ↔ ∃ e ∈ used, address = r.base + (e.offset + lead) := by
  rw [backed.matched.mem_iff, List.mem_map]
  simp only [eq_comm]

/-- The ledger is no longer than the range of the blocks. -/
theorem length_le (backed : Backed lead gap r used grants) (spread : Block.Spread gap stop used) :
    grants.length ≤ stop := by
  have lengths := backed.matched.length_eq
  rw [List.length_map, List.length_map] at lengths
  rw [lengths]
  exact spread.length_le

/-- No two grants have one address. -/
theorem nodup (backed : Backed lead gap r used grants) (spread : Block.Spread gap stop used) :
    (grants.map Grant.address).Nodup := by
  apply backed.matched.nodup_iff.2
  rw [List.Nodup, List.pairwise_map]
  refine spread.ascending.imp ?_
  intro e f below
  omega

/-- The ledger without the grant of a block that was taken back. -/
theorem remove (backed : Backed lead gap r (pre ++ e :: post) grants)
    (spread : Block.Spread gap stop (pre ++ e :: post)) :
    Backed lead gap r (pre ++ post)
      (grants.filter fun g => g.address != r.base + (e.offset + lead)) where
  matched := by
    have different : ∀ f ∈ pre ++ post, r.base + (f.offset + lead) ≠ r.base + (e.offset + lead) := by
      intro f member
      obtain ⟨_, tail, cross⟩ := List.pairwise_append.1 spread.ascending
      rcases List.mem_append.1 member with before | after
      · have := cross f before e List.mem_cons_self
        omega
      · have := (List.pairwise_cons.1 tail).1 f after
        omega
    have others : ((pre ++ post).map fun e => r.base + (e.offset + lead)).filter
        (fun a => a != r.base + (e.offset + lead))
          = (pre ++ post).map fun e => r.base + (e.offset + lead) := by
      apply List.filter_eq_self.2
      intro a member
      obtain ⟨f, listed, rfl⟩ := List.mem_map.1 member
      exact bne_iff_ne.2 (different f listed)
    have struck : ((pre ++ e :: post).map fun e => r.base + (e.offset + lead)).filter
        (fun a => a != r.base + (e.offset + lead))
          = (pre ++ post).map fun e => r.base + (e.offset + lead) := by
      rw [← others]
      simp
    have rest := backed.matched.filter fun a => a != r.base + (e.offset + lead)
    rw [struck, List.filter_map] at rest
    exact rest
  fits g member := by
    obtain ⟨listed, other⟩ := List.mem_filter.1 member
    obtain ⟨f, inside, address, room⟩ := backed.fits g listed
    refine ⟨f, ?_, address, room⟩
    rcases List.mem_append.1 inside with before | after
    · exact List.mem_append_left _ before
    · rcases List.mem_cons.1 after with rfl | after
      · exact absurd address (bne_iff_ne.1 other)
      · exact List.mem_append_right _ after
  kept g member := backed.kept g (List.mem_filter.1 member).1

/-- The ledger after a live block was taken back and merged with what touches it. Its own payload may
have been overwritten. -/
theorem freed {pre post : List Block} {b : Block}
    (backed : Backed lead gap r (Block.roster true (pre ++ b :: post)) grants)
    (live : b.live = true) (header : 16 ≤ lead) (tiles : Block.Tiles gap start (pre ++ b :: post) stop)
    (agrees : Region.AgreesOff (Block.headers (pre ++ b :: post) ∪
      {i | b.offset + lead ≤ i ∧ i < b.offset + (gap + b.size)}) r r') :
    Backed lead gap r' (Block.roster true (Block.coalesce gap (pre ++ b.freed :: post)))
      (grants.filter fun g => g.address != r.base + (b.offset + lead)) := by
  have spread := tiles.spread_roster true
  have listed := Block.roster_subset true (pre ++ b :: post)
  rw [Block.roster_of_live live] at backed spread listed
  rw [Block.roster_true_coalesce, Block.roster_true_freed]
  refine (backed.remove spread).congr agrees.sameBase fun f kept i low high => agrees.sameByte i ?_
  have used : f ∈ Block.roster true pre ++ b.toEntry :: Block.roster true post :=
    (List.Sublist.append_left (List.sublist_cons_self _ _) _).subset kept
  obtain ⟨c, also, rfl⟩ := List.mem_map.1 (listed used)
  rintro (block | ⟨above, below⟩)
  · exact tiles.not_mem_headers also (by omega) high block
  · have different : c.toEntry ≠ b.toEntry := by
      obtain ⟨_, tail, cross⟩ := List.pairwise_append.1 spread.ascending
      intro one
      rcases List.mem_append.1 kept with before | after
      · have := cross _ before b.toEntry List.mem_cons_self
        rw [one] at this
        omega
      · have := (List.pairwise_cons.1 tail).1 _ after
        rw [one] at this
        omega
    have := spread.disjoint used (List.mem_append_right _ List.mem_cons_self) different
    omega

/-- An address that no used block has is not in the ledger. -/
theorem filter_eq_self (backed : Backed lead gap r used grants) {address : Nat}
    (foreign : ∀ e ∈ used, address ≠ r.base + (e.offset + lead)) :
    (grants.filter fun g => g.address != address) = grants := by
  apply List.filter_eq_self.2
  intro g member
  obtain ⟨e, listed, place, _⟩ := backed.fits g member
  apply bne_iff_ne.2
  intro same
  exact foreign e listed (same.symm.trans place)

/-- A write of the client stays inside the payload of a used block. -/
theorem agreesOff_write (backed : Backed lead gap r used grants) {address distance : Nat}
    {data : List UInt8}
    (owned : ∃ g ∈ grants, g.address = address ∧ distance + data.length ≤ g.length) :
    ∃ e ∈ used, Region.AgreesOff {i | e.offset + lead ≤ i ∧ i < e.offset + (gap + e.size)} r
      (r.writeAt (address + distance) data) := by
  obtain ⟨g, member, rfl, span⟩ := owned
  obtain ⟨e, listed, place, room⟩ := backed.fits g member
  refine ⟨e, listed, Region.agreesOff_writeBytes fun i low high => ?_⟩
  exact ⟨by omega, by omega⟩

/-- A write of the client stays inside its own block and is noted in the ledger. -/
theorem store (backed : Backed lead gap r used grants)
    (spread : Block.Spread gap stop used) (inside : stop ≤ r.size) {address distance : Nat}
    {data : List UInt8}
    (owned : ∃ g ∈ grants, g.address = address ∧ distance + data.length ≤ g.length) :
    Backed lead gap (r.writeAt (address + distance) data) used
      (grants.map fun g => if g.address = address then g.store distance data else g) where
  matched := by
    have addresses : (grants.map fun g =>
        if g.address = address then g.store distance data else g).map Grant.address
          = grants.map Grant.address := by
      rw [List.map_map]
      apply List.map_congr_left
      intro g _
      by_cases same : g.address = address
      · simp only [Function.comp_apply, if_pos same]
        rfl
      · simp only [Function.comp_apply, if_neg same]
    rw [addresses, Region.writeAt, Region.base_writeBytes]
    exact backed.matched
  fits g member := by
    obtain ⟨h, listed, rfl⟩ := List.mem_map.1 member
    rw [Region.writeAt, Region.base_writeBytes]
    by_cases same : h.address = address
    · rw [if_pos same]
      exact backed.fits h listed
    · rw [if_neg same]
      exact backed.fits h listed
  kept g member i v stored := by
    obtain ⟨owner, owns, rfl, span⟩ := owned
    obtain ⟨e, entered, place, room⟩ := backed.fits owner owns
    have bound := spread.inside e entered
    obtain ⟨h, listed, rfl⟩ := List.mem_map.1 member
    have target : owner.address + distance - r.base = e.offset + lead + distance := by omega
    rw [Region.writeAt, Region.base_writeBytes, target]
    by_cases same : h.address = owner.address
    · rw [if_pos same] at stored ⊢
      have position : h.address - r.base + i = e.offset + lead + i := by omega
      -- Both grants lie in one block, so they have one length as well.
      have one : h = owner := List.inj_on_of_nodup_map (backed.nodup spread) listed owns same
      subst one
      change (if distance ≤ i ∧ i < distance + data.length then data[i - distance]?
        else h.stored i) = some v at stored
      change i < h.length ∧ _
      rw [show (h.store distance data).address = h.address from rfl, position]
      by_cases written : distance ≤ i ∧ i < distance + data.length
      · rw [if_pos written] at stored
        refine ⟨by omega, ?_⟩
        rw [r.byte_writeBytes, if_pos (by omega), List.getD_eq_getElem?_getD,
          show e.offset + lead + i - (e.offset + lead + distance) = i - distance by omega, stored]
        rfl
      · rw [if_neg written] at stored
        obtain ⟨short, byte⟩ := backed.kept h listed i v stored
        refine ⟨short, ?_⟩
        rw [r.byte_writeBytes_of_disjoint (by omega), ← position]
        exact byte
    · rw [if_neg same] at stored ⊢
      obtain ⟨short, byte⟩ := backed.kept h listed i v stored
      obtain ⟨f, also, elsewhere, space⟩ := backed.fits h listed
      have different : e ≠ f := by
        rintro rfl
        exact same (elsewhere.trans place.symm)
      have apart := spread.disjoint entered also different
      refine ⟨short, ?_⟩
      rw [r.byte_writeBytes_of_disjoint (by omega)]
      exact byte

/-! ## Safe memory -/

/-- Different grants do not overlap. -/
theorem pairwise (backed : Backed lead gap r used grants) (spread : Block.Spread gap stop used) :
    grants.Pairwise fun g h =>
      g.address + g.length ≤ h.address ∨ h.address + h.length ≤ g.address := by
  have nodup := List.pairwise_map.1 (backed.nodup spread)
  refine nodup.imp_of_mem ?_
  intro g h left right different
  obtain ⟨e, listed, address, room⟩ := backed.fits g left
  obtain ⟨f, also, place, space⟩ := backed.fits h right
  have distinct : e ≠ f := by
    rintro rfl
    exact different (address.trans place.symm)
  have := spread.disjoint listed also distinct
  omega

/-- A ledger backed by the live blocks of a tiling is safe memory. -/
theorem safe (backed : Backed lead gap r (Block.roster true blocks) grants)
    (tiles : Block.Tiles gap start blocks stop) (header : 16 ≤ lead) :
    SafeMemory (r.base + (start + lead)) (r.base + stop) (blocks.map Block.toEntry) r grants where
  inside g member := by
    obtain ⟨e, listed, address, room⟩ := backed.fits g member
    obtain ⟨b, inside, _, rfl⟩ := Block.mem_roster.1 listed
    have low := tiles.start_le inside
    have high := tiles.le_stop inside
    omega
  apart := backed.pairwise (tiles.spread_roster true)
  offHeaders g member e block := by
    obtain ⟨f, listed, address, room⟩ := backed.fits g member
    obtain ⟨b, inside, _, rfl⟩ := Block.mem_roster.1 listed
    by_cases same : b.toEntry = e
    · rw [same] at address
      exact Or.inr (by omega)
    · have apart := tiles.spread.disjoint (List.mem_map_of_mem inside) block same
      omega
  kept := backed.kept

end Backed

end RegionAlloc
