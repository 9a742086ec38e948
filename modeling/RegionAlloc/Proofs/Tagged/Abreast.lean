import RegionAlloc.Proofs.Tagged.Paired

/-!
# Two heaps under the same orders

Two clients, each of a heap of its own, carry out the same orders: allocations of the same sizes, and
releases of what was given by the same number. Between the orders they write what they like into the
memory that they hold. Whatever the heaps differ in besides their alignment and the range of their
blocks, memory is placed alike (`placement_is_independent`): no decision of a heap reads a byte of a
client, what is left of an old header, or a link that is not decoded.
-/

namespace RegionAlloc.Tagged

open Block Region

variable {region region' : Region} {settings settings' : Settings} {overflow : Overflow} {h k : Heap}
  {blocks : List Block}

/-! ## Orders -/

/-- What both clients are told to do. Memory goes by the number of the allocation that gave it. -/
inductive Order where
  | allocate (request : Nat)
  | tryAllocate (request : Nat)
  | allocateZeroed (count size : Nat)
  | release (number : Nat)
  | releaseNull
  | onFailure (hook : Hook)
  | resetLowWater

/-- A client that numbers the addresses that it is given. -/
structure Numbered where
  client : Client Heap
  given : List Nat

namespace Numbered

def start (h : Heap) : Numbered :=
  { client := Client.start h, given := [] }

def overwrite (m : Numbered) (address : Nat) (data : List UInt8) : Numbered :=
  { m with client := m.client.overwrite address data }

end Numbered

namespace Order

/-- The order as a move of a client that was given these addresses. There is none for a number that
was not reached yet. -/
def move? (given : List Nat) : Order → Option Move
  | .allocate request => some (.basic (.allocate request))
  | .tryAllocate request => some (.basic (.tryAllocate request))
  | .allocateZeroed count size => some (.allocateZeroed count size)
  | .release number => given[number]?.map fun address => .basic (.release address)
  | .releaseNull => some (.basic (.release 0))
  | .onFailure hook => some (.onFailure hook)
  | .resetLowWater => some .resetLowWater

/-- Carries out the order, if it is a legal move and does not fault. -/
def obey? (order : Order) (m : Numbered) : Option Numbered :=
  match order.move? m.given with
  | none => none
  | some move =>
    if Legal m.client move then
      match (perform move).run m.client with
      | ⟨.ok place, client, _⟩ => some { client, given := m.given ++ place.toList }
      | ⟨.error _, _, _⟩ => none
    else
      none

private theorem exists_of_obey? {order : Order} {m m' : Numbered} (obeyed : order.obey? m = some m') :
    ∃ move place events, order.move? m.given = some move ∧ Legal m.client move ∧
      (perform move).run m.client = ⟨.ok place, m'.client, events⟩ ∧
      m'.given = m.given ++ place.toList := by
  unfold obey? at obeyed
  cases asked : order.move? m.given with
  | none =>
    rw [asked] at obeyed
    cases obeyed
  | some move =>
    rw [asked] at obeyed
    by_cases legal : Legal m.client move
    · simp only [if_pos legal] at obeyed
      cases run : (perform move).run m.client with
      | mk result client events =>
        rw [run] at obeyed
        cases result with
        | ok place =>
          obtain rfl := Option.some.inj obeyed
          exact ⟨move, place, events, rfl, legal, run, rfl⟩
        | error fault => cases obeyed
    · simp only [if_neg legal] at obeyed
      cases obeyed

end Order

/-- The addresses were given at the same distances from the start of either region. -/
def Level (h k : Heap) (m n : Numbered) : Prop :=
  ∃ offsets : List Nat, m.given = offsets.map (h.region.base + ·) ∧
    n.given = offsets.map (k.region.base + ·)

private theorem ensures_onFailure (s : Client Heap) (hook : Hook) :
    (perform (.onFailure hook)).Ensures s False fun place s' =>
      place = none ∧ s' = { s with heap := { s.heap with hook := some hook } } :=
  Call.Ensures.of_run rfl ⟨rfl, rfl⟩

private theorem ensures_resetLowWater (s : Client Heap) :
    (perform .resetLowWater).Ensures s False fun place s' =>
      place = none ∧ s' = { s with heap := { s.heap with usage := s.heap.usage.resetLowWater } } :=
  Call.Ensures.of_run rfl ⟨rfl, rfl⟩

/-- **Paired clients carry out an order alike.** What is legal for the one is legal for the other, and
they do the same step, or both fault as a counter has no room. -/
theorem Paired.obey {m n : Numbered} (paired : Paired h k m.client n.client blocks)
    (level : Level h k m n) {order : Order} {move : Move} (asked : order.move? m.given = some move)
    (legal : Legal m.client move) :
    ∃ move', order.move? n.given = some move' ∧ Legal n.client move' ∧
      (perform move).Together (perform move') m.client n.client
        (¬ m.client.heap.usage.HasRoom m.client.heap.overflow)
        (Advanced h k m.client n.client blocks) := by
  cases order with
  | allocate request =>
    obtain rfl := Option.some.inj asked
    exact ⟨_, rfl, ⟨trivial, trivial⟩,
      Client.together_keep (Client.together_allocate (paired.tryAllocate request))⟩
  | tryAllocate request =>
    obtain rfl := Option.some.inj asked
    exact ⟨_, rfl, ⟨trivial, trivial⟩, Client.together_keep (paired.tryAllocate request)⟩
  | allocateZeroed count size =>
    obtain rfl := Option.some.inj asked
    refine ⟨_, rfl, trivial, Client.together_keep (Client.together_zeroedBy ?_ ?_)⟩
    · exact ⟨blocks, paired, .kept rfl rfl⟩
    · exact Client.together_allocate (paired.allocate (Nat.le_refl _) fun _ => rfl)
  | release number =>
    obtain ⟨offsets, given, given'⟩ := level
    obtain ⟨address, found, rfl⟩ := Option.map_eq_some_iff.1 asked
    rw [given, List.getElem?_map] at found
    obtain ⟨offset, numbered, rfl⟩ := Option.map_eq_some_iff.1 found
    have positive := h.region.basePos
    obtain ⟨owned, together⟩ := paired.giveBack (legal.2.resolve_left (by omega))
    have asked' : (Order.release number).move? n.given
        = some (.basic (.release (k.region.base + offset))) := by
      simp [Order.move?, given', numbered]
    exact ⟨_, asked', ⟨trivial, Or.inr owned⟩, together⟩
  | releaseNull =>
    obtain rfl := Option.some.inj asked
    exact ⟨_, rfl, ⟨trivial, Or.inl rfl⟩, paired.giveBack_null⟩
  | onFailure hook =>
    obtain rfl := Option.some.inj asked
    refine ⟨_, rfl, trivial, ?_⟩
    apply Call.Together.of_ends (ensures_onFailure _ hook) (ensures_onFailure _ hook)
    intro _ s' _ t' left right
    obtain ⟨rfl, rfl⟩ := left
    obtain ⟨rfl, rfl⟩ := right
    exact paired.recount (some hook) (some hook) rfl paired.matched.usage
  | resetLowWater =>
    obtain rfl := Option.some.inj asked
    refine ⟨_, rfl, trivial, ?_⟩
    apply Call.Together.of_ends (ensures_resetLowWater _) (ensures_resetLowWater _)
    intro _ s' _ t' left right
    obtain ⟨rfl, rfl⟩ := left
    obtain ⟨rfl, rfl⟩ := right
    exact paired.recount _ _ rfl (congrArg Usage.resetLowWater paired.matched.usage)

/-! ## Runs abreast -/

variable {m m' n n' : Numbered}

/-- An order that paired clients both carry out takes them through the same step. -/
theorem Paired.advanced_of_obey? (paired : Paired h k m.client n.client blocks)
    (level : Level h k m n) {order : Order} (first : order.obey? m = some m')
    (second : order.obey? n = some n') : ∃ place place',
      Advanced h k m.client n.client blocks place m'.client place' n'.client ∧
        m'.given = m.given ++ place.toList ∧ n'.given = n.given ++ place'.toList := by
  obtain ⟨move, place, events, asked, legal, run, given⟩ := Order.exists_of_obey? first
  obtain ⟨move', place', events', asked', _, run', given'⟩ := Order.exists_of_obey? second
  obtain ⟨also, asked'', _, together⟩ := paired.obey level asked legal
  obtain rfl := Option.some.inj (asked'.symm.trans asked'')
  exact ⟨place, place', together.of_run run run', given, given'⟩

/-- Two clients that began with the heaps `h` and `k` and carried out the same orders, each of them
legal. Between the orders each of them wrote what it liked into the payloads of its live blocks. -/
inductive Abreast (h k : Heap) : Numbered → Numbered → Prop
  | start : Abreast h k (.start h) (.start k)
  | order {m n m' n' : Numbered} {order : Order} (before : Abreast h k m n)
      (first : order.obey? m = some m') (second : order.obey? n = some n') : Abreast h k m' n'
  | firstWrites {m n : Numbered} {address : Nat} {data : List UInt8} (before : Abreast h k m n)
      (inside : m.client.heap.InPayload address data.length) :
      Abreast h k (m.overwrite address data) n
  | secondWrites {m n : Numbered} {address : Nat} {data : List UInt8} (before : Abreast h k m n)
      (inside : n.client.heap.InPayload address data.length) :
      Abreast h k m (n.overwrite address data)

/-- Clients abreast are paired, and were given memory at the same distances. -/
theorem Abreast.paired (paired : Paired h k (Client.start h) (Client.start k) blocks)
    (abreast : Abreast h k m n) :
    Level h k m n ∧ ∃ blocks', Paired h k m.client n.client blocks' := by
  induction abreast with
  | start => exact ⟨⟨[], rfl, rfl⟩, blocks, paired⟩
  | order before first second ih =>
    obtain ⟨level, blocks', held⟩ := ih
    obtain ⟨place, place', advanced, given, given'⟩ := held.advanced_of_obey? level first second
    obtain ⟨offsets, here, there⟩ := level
    obtain ⟨offset, rfl, rfl⟩ := held.offset advanced
    obtain ⟨blocks'', held', _⟩ := advanced
    refine ⟨⟨offsets ++ offset.toList, ?_, ?_⟩, blocks'', held'⟩
    -- What the step gave, if anything, is one more offset on both lists.
    · rw [given, here, List.map_append]
      cases offset <;> rfl
    · rw [given', there, List.map_append]
      cases offset <;> rfl
  | firstWrites before inside ih =>
    obtain ⟨level, blocks', held⟩ := ih
    exact ⟨level, blocks', held.first_writes inside⟩
  | secondWrites before inside ih =>
    obtain ⟨level, blocks', held⟩ := ih
    exact ⟨level, blocks', held.second_writes inside⟩

/-! ## Scripts -/

/-- Bytes in one part of memory that the client was given. -/
def Numbered.Owns (m : Numbered) (address length : Nat) : Prop :=
  ∃ g ∈ m.client.grants, g.address ≤ address ∧ address + length ≤ g.address + g.length

instance (m : Numbered) (address length : Nat) : Decidable (m.Owns address length) :=
  inferInstanceAs (Decidable (∃ g ∈ m.client.grants, _))

/-- What happens next to two clients abreast. -/
inductive Turn where
  | both (order : Order)
  | first (address : Nat) (data : List UInt8)
  | second (address : Nat) (data : List UInt8)

/-- What the turn leads to, unless a client may not do it. -/
def Turn.take? : Turn → Numbered × Numbered → Option (Numbered × Numbered)
  | .both order, (m, n) =>
    match order.obey? m, order.obey? n with
    | some m', some n' => some (m', n')
    | _, _ => none
  | .first address data, (m, n) =>
    if m.Owns address data.length then some (m.overwrite address data, n) else none
  | .second address data, (m, n) =>
    if n.Owns address data.length then some (m, n.overwrite address data) else none

private theorem Held.inPayload_of_owns (held : Held h m.client.forget blocks) {address length : Nat}
    (owns : m.Owns address length) : m.client.heap.InPayload address length := by
  obtain ⟨g, member, low, high⟩ := owns
  obtain ⟨blocks, shows, b, inside, live, start, stop⟩ := held.inPayload member
  exact ⟨blocks, shows, b, inside, live, by omega, by omega⟩

private theorem Abreast.turn (paired : Paired h k (Client.start h) (Client.start k) blocks)
    (abreast : Abreast h k m n) {turn : Turn} {p : Numbered × Numbered}
    (taken : turn.take? (m, n) = some p) : Abreast h k p.1 p.2 := by
  obtain ⟨_, _, held, held', _⟩ := abreast.paired paired
  cases turn with
  | both order =>
    simp only [Turn.take?] at taken
    cases first : order.obey? m with
    | none => simp [first] at taken
    | some m' =>
      cases second : order.obey? n with
      | none => simp [second] at taken
      | some n' =>
        simp only [first, second] at taken
        obtain rfl := Option.some.inj taken
        exact abreast.order first second
  | first address data =>
    simp only [Turn.take?] at taken
    by_cases owns : m.Owns address data.length
    · rw [if_pos owns] at taken
      obtain rfl := Option.some.inj taken
      exact abreast.firstWrites (held.inPayload_of_owns owns)
    · rw [if_neg owns] at taken
      cases taken
  | second address data =>
    simp only [Turn.take?] at taken
    by_cases owns : n.Owns address data.length
    · rw [if_pos owns] at taken
      obtain rfl := Option.some.inj taken
      exact abreast.secondWrites (held'.inPayload_of_owns owns)
    · rw [if_neg owns] at taken
      cases taken

/-- What the turns lead to, unless one of them may not be taken. -/
def Turn.takeAll? (turns : List Turn) (p : Numbered × Numbered) : Option (Numbered × Numbered) :=
  turns.foldlM (fun p turn => turn.take? p) p

/-- Turns that can be taken keep the clients abreast. -/
theorem Abreast.turns (paired : Paired h k (Client.start h) (Client.start k) blocks)
    (abreast : Abreast h k m n) {turns : List Turn} {p : Numbered × Numbered}
    (taken : Turn.takeAll? turns (m, n) = some p) : Abreast h k p.1 p.2 := by
  induction turns generalizing m n with
  | nil =>
    obtain rfl := Option.some.inj taken
    exact abreast
  | cons turn rest ih =>
    obtain ⟨q, first, later⟩ := Option.bind_eq_some_iff.1 taken
    exact ih (abreast.turn paired first) later

/-- A hundred and seventy-six bytes elsewhere, none of them zero. -/
def filledRegion : Region where
  base := 8193
  bytes := ⟨Array.replicate 176 0xff⟩
  basePos := by decide
  sizeLt := by decide +kernel
  endLe := by decide +kernel

def masked : Settings where
  alignment := 16
  canary := 0xffffffffffffffff

/-- Three blocks are taken, the outer two are released, and the first one is taken again. In between
each client writes what the other one does not. -/
def mixedTurns : List Turn :=
  [.both (.allocate 5), .both (.allocateZeroed 2 9), .first 4128 [1, 2, 3], .second 8224 [9, 9],
    .both (.allocate 20), .both (.release 0), .both (.onFailure 3), .both (.allocate 1000),
    .both .resetLowWater, .both .releaseNull, .second 8256 [4], .both (.release 2),
    .both (.tryAllocate 1)]

set_option maxRecDepth 4000 in
private theorem abreast_mixedTurns : ∃ h k m n, Heap.create oddRegion clearing .trap = .ok h ∧
    Heap.create filledRegion masked .trap = .ok k ∧ k.start = h.start ∧
    (m.given, n.given) = ([4128, 4160, 4208, 4128], [8224, 8256, 8304, 8224]) ∧ Abreast h k m n := by
  obtain ⟨h, k, created, created', start, taken⟩ : ∃ h k,
      Heap.create oddRegion clearing .trap = .ok h ∧ Heap.create filledRegion masked .trap = .ok k ∧
      k.start = h.start ∧
      (Turn.takeAll? mixedTurns (.start h, .start k)).map (fun p => (p.1.given, p.2.given))
        = some ([4128, 4160, 4208, 4128], [8224, 8256, 8304, 8224]) :=
    ⟨_, _, rfl, rfl, by decide +kernel⟩
  obtain ⟨p, taken, given⟩ := Option.map_eq_some_iff.1 taken
  obtain ⟨_, paired⟩ := paired_start created created' rfl rfl start
  exact ⟨h, k, p.1, p.2, created, created', start, given, Abreast.start.turns paired taken⟩

/-! ## Placement -/

/-- Two clients of the heaps `h` and `k` are treated alike. They were given memory at the same
distances, their heaps report the same, what they asked for is theirs to write into, and the next order
comes to the same for both. -/
structure TreatedAlike (h k : Heap) (m n : Numbered) : Prop where
  given : Level h k m n
  free : ∃ listed, m.client.heap.freeBlocks = .ok listed ∧ n.client.heap.freeBlocks = .ok listed
  statistics : ∃ figures, m.client.heap.statistics = .ok figures ∧
    n.client.heap.statistics = .ok figures
  sound : m.client.heap.isSound = .ok true ∧ n.client.heap.isSound = .ok true
  writable : (∀ g ∈ m.client.grants, m.client.heap.InPayload g.address g.length) ∧
    ∀ g ∈ n.client.grants, n.client.heap.InPayload g.address g.length
  next : ∀ order move, Order.move? m.given order = some move → Legal m.client move →
    ∃ move', Order.move? n.given order = some move' ∧ Legal n.client move' ∧
      (perform move).Together (perform move') m.client n.client
        (¬ m.client.heap.usage.HasRoom m.client.heap.overflow) fun place _ place' _ =>
          ∃ offset : Option Nat, place = offset.map (h.region.base + ·) ∧
            place' = offset.map (k.region.base + ·)

/-- **Where memory is placed depends on the orders alone.** Two heaps in regions of one size, with one
alignment and one start, may have any canaries, clear freed memory or not, and hold any bytes, at first
and as their clients write into live blocks: under the same orders they treat their clients alike. -/
theorem placement_is_independent (created : Heap.create region settings overflow = .ok h)
    (created' : Heap.create region' settings' overflow = .ok k) (size : region'.size = region.size)
    (alignment : settings'.alignment = settings.alignment) (start : k.start = h.start)
    (abreast : Abreast h k m n) : TreatedAlike h k m n := by
  obtain ⟨_, paired⟩ := paired_start created created' size alignment start
  obtain ⟨level, blocks, held, held', matched⟩ := abreast.paired paired
  have figures := held'.laid.statistics_eq
  change n.client.heap.statistics = .ok (.ofSurvey (.ofEntries (roster false blocks))
    n.client.heap.usage) at figures
  rw [matched.usage] at figures
  refine ⟨level, ⟨_, held.laid.freeBlocks_eq, held'.laid.freeBlocks_eq⟩,
    ⟨_, held.laid.statistics_eq, figures⟩, ⟨held.laid.isSound, held'.laid.isSound⟩,
    ⟨fun g => held.inPayload, fun g => held'.inPayload⟩, ?_⟩
  intro order move asked legal
  obtain ⟨move', asked', legal', together⟩ := Paired.obey ⟨held, held', matched⟩ level asked legal
  refine ⟨move', asked', legal', together.mono id ?_⟩
  intro place s' place' t' advanced
  exact Paired.offset ⟨held, held', matched⟩ advanced

/-- Two heaps at different addresses, one of them filled with bytes, with a canary and other settings,
under the same orders. -/
theorem placement_is_independent_mixedTurns : ∃ h k m n,
    Heap.create oddRegion clearing .trap = .ok h ∧ Heap.create filledRegion masked .trap = .ok k ∧
    (m.given, n.given) = ([4128, 4160, 4208, 4128], [8224, 8256, 8304, 8224]) ∧
    TreatedAlike h k m n := by
  obtain ⟨h, k, m, n, created, created', start, given, abreast⟩ := abreast_mixedTurns
  exact ⟨h, k, m, n, created, created', given,
    placement_is_independent created created' rfl rfl start abreast⟩

end RegionAlloc.Tagged
