import RegionAlloc.Allocator
import RegionAlloc.Proofs.Ensures

/-!
# Clients and their ledgers

A client of a heap keeps a ledger of the memory that it was given and has not given back: where it
begins, how many bytes were asked for, and which bytes the client stored there since. A move of the
client is a call on the heap, or a write into the region, together with the entry in the ledger.

The ledger takes no part in the calls. It says what a client may do (`Client.WritesOwn`,
`Client.ReleasesOwn`) and what it relies on.
-/

namespace RegionAlloc

/-- Memory that a client was given. -/
structure Grant where
  address : Nat
  /-- How many bytes were asked for. -/
  length : Nat
  /-- The bytes that the client stored there, by distance from the address. -/
  stored : Nat → Option UInt8

namespace Grant

/-- Memory in which the client has stored nothing. -/
def fresh (address length : Nat) : Grant :=
  { address, length, stored := fun _ => none }

/-- Memory that was handed out full of zeros. -/
def zeroed (address length : Nat) : Grant :=
  { address, length, stored := fun i => if i < length then some 0 else none }

/-- The client stores bytes at a distance from the address. -/
def store (g : Grant) (distance : Nat) (data : List UInt8) : Grant :=
  { g with
    stored := fun i =>
      if distance ≤ i ∧ i < distance + data.length then data[i - distance]? else g.stored i }

/-- Memory is handed out full of zeros if they are stored there first. -/
theorem store_fresh (address length : Nat) :
    (fresh address length).store 0 (List.replicate length 0) = zeroed address length := by
  unfold fresh store zeroed
  congr 1
  funext i
  by_cases inside : i < length
  · rw [if_pos (by rw [List.length_replicate]; omega), if_pos inside, Nat.sub_zero,
      List.getElem?_replicate, if_pos inside]
  · rw [if_neg (by rw [List.length_replicate]; omega), if_neg inside]

/-- What is stored in the memory granted last changes no other grant. -/
theorem map_store_cons {g : Grant} {grants : List Grant}
    (nodup : ((g :: grants).map Grant.address).Nodup) {distance : Nat} {data : List UInt8} :
    ((g :: grants).map fun k => if k.address = g.address then k.store distance data else k)
      = g.store distance data :: grants := by
  rw [List.map_cons] at nodup ⊢
  have others : (grants.map fun k => if k.address = g.address then k.store distance data else k)
      = grants := by
    refine (List.map_congr_left fun k member => if_neg ?_).trans (List.map_id _)
    intro same
    apply (List.nodup_cons.1 nodup).1
    exact List.mem_map.2 ⟨k, member, same⟩
  rw [others]
  exact congrArg (· :: grants) (if_pos rfl)

/-- At most one grant is struck off the ledger with an address. -/
theorem length_filter_address {grants : List Grant} (nodup : (grants.map Grant.address).Nodup)
    (address : Nat) : (grants.filter fun g => g.address != address).length
      + (decide (address ∈ grants.map Grant.address)).toNat = grants.length := by
  have found : grants.countP (fun g => g.address == address)
      = (decide (address ∈ grants.map Grant.address)).toNat := by
    have counted : (grants.map Grant.address).count address
        = grants.countP fun g => g.address == address := List.countP_map
    rw [← counted, nodup.count]
    by_cases listed : address ∈ grants.map Grant.address
    · rw [if_pos listed, decide_eq_true listed]
      rfl
    · rw [if_neg listed, decide_eq_false listed]
      rfl
  have parts := List.length_eq_countP_add_countP (fun g : Grant => g.address != address) (l := grants)
  simp only [bne, Bool.not_eq_true, Bool.not_eq_false', Bool.decide_eq_true] at parts
  rw [← List.countP_eq_length_filter]
  simp only [bne]
  omega

/-- What is known of grants with their addresses is known of the addresses. -/
theorem map_address_of_map {α : Type} {grants : List Grant} {f : Grant → α} {known : List (Nat × α)}
    (same : grants.map (fun g => (g.address, f g)) = known) :
    grants.map Grant.address = known.map Prod.fst := by
  rw [← same, List.map_map]
  rfl

/-- Where addresses and lengths are known, there is a grant for each. -/
theorem exists_of_map {grants : List Grant} {known : List (Nat × Nat)}
    (same : grants.map (fun g => (g.address, g.length)) = known) (address length : Nat)
    (listed : (address, length) ∈ known) :
    ∃ g ∈ grants, g.address = address ∧ g.length = length := by
  rw [← same] at listed
  obtain ⟨g, member, span⟩ := List.mem_map.1 listed
  exact ⟨g, member, Prod.mk.inj span⟩

end Grant

/-- A client with the heap that it uses. -/
structure Client (σ : Type) where
  heap : σ
  grants : List Grant

/-- What a client of any heap can do. -/
inductive Move where
  /-- Allocate, and run the hook if that fails. -/
  | allocate (request : Nat)
  /-- Allocate without a hook. -/
  | tryAllocate (request : Nat)
  /-- Give back what is at an address. -/
  | release (address : Nat)
  /-- Write bytes at a distance from an address. -/
  | write (address distance : Nat) (data : List UInt8)

namespace Client

variable {σ α : Type}

/-- A client that was given nothing yet. -/
def start (heap : σ) : Client σ :=
  { heap, grants := [] }

/-- Runs a call on the heap. -/
def onHeap (c : Call σ α) : Call (Client σ) α where
  run s :=
    match c.run s.heap with
    | ⟨result, heap, events⟩ => ⟨result, { s with heap }, events⟩

/-- Runs an allocation and keeps what it gives in the ledger. -/
def keep (c : Call σ (Option Nat)) (grant : Nat → Grant) : Call (Client σ) (Option Nat) := do
  match ← onHeap c with
  | none => return none
  | some address =>
    .update fun s => { s with grants := grant address :: s.grants }
    return some address

/-- Gives an address back and strikes it off the ledger. -/
def giveBack [Allocator σ] (address : Nat) : Call (Client σ) (Option Nat) := do
  onHeap (Allocator.release address)
  .update fun s => { s with grants := s.grants.filter fun g => g.address != address }
  return none

/-- Writes bytes and takes note of them in the ledger. -/
def write [HasRegion σ] (address distance : Nat) (data : List UInt8) :
    Call (Client σ) (Option Nat) := do
  onHeap (HasRegion.writeAt (address + distance) data)
  .update fun s =>
    { s with
      grants := s.grants.map fun g => if g.address = address then g.store distance data else g }
  return none

/-- Makes a move. The result is the address that an allocation gave. -/
def perform [Allocator σ] : Move → Call (Client σ) (Option Nat)
  | .allocate request => keep (Allocator.allocate request) (Grant.fresh · request)
  | .tryAllocate request => keep (Allocator.tryAllocate request) (Grant.fresh · request)
  | .release address => giveBack address
  | .write address distance data => write address distance data

/-- The client writes only inside the bytes that it asked for and was given. -/
def WritesOwn (s : Client σ) : Move → Prop
  | .write address distance data =>
    ∃ g ∈ s.grants, g.address = address ∧ distance + data.length ≤ g.length
  | _ => True

/-- The client gives back only what it was given, or the null address. -/
def ReleasesOwn (s : Client σ) : Move → Prop
  | .release address => address = 0 ∨ ∃ g ∈ s.grants, g.address = address
  | _ => True

instance (s : Client σ) : ∀ move : Move, Decidable (s.WritesOwn move)
  | .write _ _ _ => inferInstanceAs (Decidable (∃ g ∈ s.grants, _ ∧ _))
  | .allocate _ => inferInstanceAs (Decidable True)
  | .tryAllocate _ => inferInstanceAs (Decidable True)
  | .release _ => inferInstanceAs (Decidable True)

instance (s : Client σ) : ∀ move : Move, Decidable (s.ReleasesOwn move)
  | .release _ => inferInstanceAs (Decidable (_ ∨ ∃ g ∈ s.grants, _))
  | .allocate _ => inferInstanceAs (Decidable True)
  | .tryAllocate _ => inferInstanceAs (Decidable True)
  | .write _ _ _ => inferInstanceAs (Decidable True)

/-! ## What moves ensure -/

variable {s : Client σ} {stop : Prop}

/-- A failure hook of a bare heap leaves the heap as it is. -/
theorem ensures_ring [Allocator σ] (heap : σ) :
    (Allocator.ring Allocator.hook fun _ => pure ()).Ensures heap stop
      fun _ heap' => heap' = heap := by
  apply Call.Ensures.state_bind
  cases Allocator.hook heap with
  | none => exact Call.Ensures.pure rfl
  | some hook => exact Call.Ensures.emit_bind (Call.Ensures.pure rfl)

/-- What the bare attempt ensures, an allocation ensures: the hook is outside the heap. -/
theorem ensures_allocate [Allocator σ] {heap : σ} {request : Nat} {P : Option Nat → σ → Prop}
    (ensures : (Allocator.tryAllocate request : Call σ (Option Nat)).Ensures heap stop P) :
    (Allocator.allocate request : Call σ (Option Nat)).Ensures heap stop P := by
  refine Call.Ensures.bind ensures fun place heap' holds => ?_
  cases place with
  | some address => exact Call.Ensures.pure holds
  | none =>
    by_cases nothing : request = 0
    · rw [if_pos nothing]
      exact Call.Ensures.pure holds
    · rw [if_neg nothing]
      apply Call.Ensures.bind (ensures_ring heap')
      intro _ _ same
      exact Call.Ensures.pure (same ▸ holds)

/-- Memory full of zeros is memory that is handed out and then overwritten. -/
theorem ensures_zeroedBy [HasRegion σ] {allocate : Nat → Call σ (Option Nat)} {heap : σ}
    {count size : Nat} {Q P : Option Nat → σ → Prop} (nothing : P none heap)
    (ensures : (allocate (count * size)).Ensures heap stop Q)
    (refused : ∀ heap', Q none heap' → P none heap')
    (given : ∀ address heap', Q (some address) heap' → P (some address)
      (HasRegion.modifyRegion heap' fun region =>
        region.writeAt address (List.replicate (count * size) 0))) :
    (Allocator.zeroedBy allocate count size).Ensures heap stop P := by
  unfold Allocator.zeroedBy
  cases product : Word.mul? count size with
  | none => exact Call.Ensures.pure nothing
  | some bytes =>
    obtain ⟨rfl, _⟩ := Word.ofNat?_eq_some.1 product
    refine Call.Ensures.bind ensures fun place heap' holds => ?_
    cases place with
    | none => exact Call.Ensures.pure (refused heap' holds)
    | some address =>
      refine Call.Ensures.bind (Q := fun _ t => P (some address) t)
        (Call.Ensures.update (given address heap' holds)) ?_
      intro _ t zeroed
      exact Call.Ensures.pure zeroed

private theorem ensures_onHeap {c : Call σ α} {P : α → Client σ → Prop}
    (ensures : c.Ensures s.heap stop fun a heap => P a { s with heap }) :
    (onHeap c).Ensures s stop P := by
  unfold Call.Ensures at ensures ⊢
  unfold onHeap
  exact ensures

/-- What is granted is entered into the ledger. -/
theorem ensures_keep {c : Call σ (Option Nat)} {grant : Nat → Grant}
    {P : Option Nat → Client σ → Prop} (ensures : c.Ensures s.heap stop fun place heap =>
      P place { heap, grants := (place.map grant).toList ++ s.grants }) :
    (keep c grant).Ensures s stop P := by
  refine Call.Ensures.bind (ensures_onHeap (P := fun place s' =>
    P place { s' with grants := (place.map grant).toList ++ s'.grants }) ensures) ?_
  intro place s' holds
  cases place with
  | none => exact Call.Ensures.pure holds
  | some address =>
    refine Call.Ensures.bind (Q := fun _ t => P (some address) t) (Call.Ensures.update holds) ?_
    intro _ t kept
    exact Call.Ensures.pure kept

/-- What is given back is struck from the ledger. -/
theorem ensures_giveBack [Allocator σ] {address : Nat} {P : Option Nat → Client σ → Prop}
    (ensures : (Allocator.release address : Call σ Unit).Ensures s.heap stop fun _ heap =>
      P none { heap, grants := s.grants.filter fun g => g.address != address }) :
    (giveBack address).Ensures s stop P := by
  refine Call.Ensures.bind (ensures_onHeap (P := fun _ s' =>
    P none { s' with grants := s'.grants.filter fun g => g.address != address }) ensures) ?_
  intro _ s' holds
  refine Call.Ensures.bind (Q := fun _ t => P none t) (Call.Ensures.update holds) ?_
  intro _ t struck
  exact Call.Ensures.pure struck

/-- A write goes to the heap and to the ledger. -/
theorem ensures_write [HasRegion σ] {address distance : Nat} {data : List UInt8}
    {P : Option Nat → Client σ → Prop}
    (holds : P none
      { heap := HasRegion.modifyRegion s.heap fun region => region.writeAt (address + distance) data
        grants := s.grants.map fun g =>
          if g.address = address then g.store distance data else g }) :
    (write address distance data).Ensures s stop P := by
  refine Call.Ensures.bind (ensures_onHeap (P := fun _ s' =>
    P none { s' with grants := s'.grants.map fun g =>
      if g.address = address then g.store distance data else g }) ?_) ?_
  · exact Call.Ensures.update holds
  intro _ s' written
  refine Call.Ensures.bind (Q := fun _ t => P none t) (Call.Ensures.update written) ?_
  intro _ t noted
  exact Call.Ensures.pure noted

end Client

end RegionAlloc
