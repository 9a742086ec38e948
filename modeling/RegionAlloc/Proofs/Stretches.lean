import RegionAlloc.Proofs.Coalesce

/-!
# Stretches of entries

Entries that lie one behind the other without a gap make up a stretch. Of entries in address order,
`joinTouching` makes one entry for each stretch that can be made no longer, and no others
(`mergesMaximally_joinTouching`).

That this is so for stretches of any length follows from three facts about the joined entries, each an
induction along the pass: they are stretches of the old ones, every old one is inside of one of them,
and no two of them touch (`Joined`).
-/

namespace RegionAlloc

open Block

variable {gap limit start middle stop i : Nat} {es fs before after : List Entry} {e f x : Entry}

/-- Entries of the list lie one behind the other from `start` to `stop`. -/
inductive Stretch (gap : Nat) (es : List Entry) : Nat → Nat → Prop
  | one {e : Entry} (member : e ∈ es) : Stretch gap es e.offset (e.offset + (gap + e.size))
  | more {e : Entry} {stop : Nat} (member : e ∈ es)
      (rest : Stretch gap es (e.offset + (gap + e.size)) stop) : Stretch gap es e.offset stop

/-- The entry takes up a whole stretch, and the stretch goes on at neither end. -/
structure MaximalStretch (gap : Nat) (es : List Entry) (x : Entry) : Prop where
  stretch : Stretch gap es x.offset (x.offset + (gap + x.size))
  first : ∀ e ∈ es, e.offset + (gap + e.size) ≠ x.offset
  last : ∀ e ∈ es, e.offset ≠ x.offset + (gap + x.size)

/-- The byte belongs to one of the entries, with the `gap` bytes of each. -/
def Covers (gap : Nat) (es : List Entry) (i : Nat) : Prop :=
  ∃ e ∈ es, e.offset ≤ i ∧ i < e.offset + (gap + e.size)

/-- What a merge of all that touches makes of entries. -/
structure MergesMaximally (gap : Nat) (before after : List Entry) : Prop where
  ascending : after.Pairwise fun e f => e.offset < f.offset
  apart : after.Pairwise fun e f => e.offset + (gap + e.size) < f.offset
  covers : ∀ i, Covers gap after i ↔ Covers gap before i
  maximal : ∀ x, x ∈ after ↔ MaximalStretch gap before x
  fewer : after.length ≤ before.length

/-! ## Along a stretch -/

namespace Stretch

private theorem trans (first : Stretch gap es start middle) (second : Stretch gap es middle stop) :
    Stretch gap es start stop := by
  induction first with
  | one member => exact .more member second
  | more member _ ih => exact .more member (ih second)

/-- A stretch of stretches is a stretch. -/
theorem flatten (stretch : Stretch gap fs start stop)
    (parts : ∀ f ∈ fs, Stretch gap es f.offset (f.offset + (gap + f.size))) :
    Stretch gap es start stop := by
  induction stretch with
  | one member => exact parts _ member
  | more member _ ih => exact (parts _ member).trans ih

private theorem le (stretch : Stretch gap es start stop) : start ≤ stop := by
  induction stretch with
  | one _ => exact Nat.le_add_right _ _
  | more _ _ ih => exact Nat.le_trans (Nat.le_add_right _ _) ih

private theorem exists_first (stretch : Stretch gap es start stop) :
    ∃ e ∈ es, e.offset = start ∧ e.offset + (gap + e.size) ≤ stop := by
  cases stretch with
  | one member => exact ⟨_, member, rfl, Nat.le_refl _⟩
  | more member rest => exact ⟨_, member, rfl, rest.le⟩

private theorem exists_last (stretch : Stretch gap es start stop) :
    ∃ e ∈ es, e.offset + (gap + e.size) = stop := by
  induction stretch with
  | one member => exact ⟨_, member, rfl⟩
  | more _ _ ih => exact ih

private theorem covers (stretch : Stretch gap es start stop) (low : start ≤ i) (high : i < stop) :
    Covers gap es i := by
  induction stretch with
  | one member => exact ⟨_, member, low, high⟩
  | @more e stop member _ ih =>
    by_cases here : i < e.offset + (gap + e.size)
    · exact ⟨e, member, low, here⟩
    · exact ih (Nat.not_lt.1 here) high

/-- An entry that starts in the middle of a stretch has another one right in front of it. -/
theorem exists_before (spread : Spread gap limit es) (stretch : Stretch gap es start stop)
    (member : e ∈ es) (low : start < e.offset) (high : e.offset < stop) :
    ∃ f ∈ es, f.offset + (gap + f.size) = e.offset := by
  have room := spread.room e member
  have around : ∀ f ∈ es, f.offset < e.offset → f.offset + (gap + f.size) ≤ e.offset := by
    intro f listed below
    have := spread.disjoint listed member fun same => Nat.ne_of_lt below (congrArg _ same)
    omega
  induction stretch with
  | @one f listed =>
    have := around f listed low
    omega
  | @more f stop listed _ ih =>
    have before := around f listed low
    rcases Nat.lt_or_eq_of_le before with later | here
    · exact ih later high
    · exact ⟨f, listed, here⟩

/-- An entry that ends in the middle of a stretch has another one right behind it. -/
theorem exists_behind (spread : Spread gap limit es) (stretch : Stretch gap es start stop)
    (member : e ∈ es) (low : start < e.offset + (gap + e.size))
    (high : e.offset + (gap + e.size) < stop) : ∃ f ∈ es, f.offset = e.offset + (gap + e.size) := by
  have around : ∀ f ∈ es, f.offset < e.offset + (gap + e.size) →
      f.offset + (gap + f.size) ≤ e.offset + (gap + e.size) := by
    intro f listed below
    by_cases same : f = e
    · rw [same]
    · have := spread.disjoint listed member same
      omega
  induction stretch with
  | @one f listed =>
    have := around f listed low
    omega
  | @more f stop listed rest ih =>
    have before := around f listed low
    rcases Nat.lt_or_eq_of_le before with later | here
    · exact ih later high
    · obtain ⟨d, inside, first, _⟩ := rest.exists_first
      exact ⟨d, inside, first.trans here⟩

end Stretch

/-! ## Joined entries -/

/-- The second entries are stretches of the first ones, all of which are inside, and do not touch. -/
structure Joined (gap : Nat) (before after : List Entry) : Prop where
  stretch : ∀ x ∈ after, Stretch gap before x.offset (x.offset + (gap + x.size))
  inside : ∀ e ∈ before, ∃ x ∈ after,
    x.offset ≤ e.offset ∧ e.offset + (gap + e.size) ≤ x.offset + (gap + x.size)
  apart : after.Pairwise fun e f => e.offset + (gap + e.size) < f.offset

namespace Joined

private theorem covers (joined : Joined gap before after) :
    Covers gap after i ↔ Covers gap before i := by
  constructor
  · rintro ⟨x, member, low, high⟩
    exact (joined.stretch x member).covers low high
  · rintro ⟨e, member, low, high⟩
    obtain ⟨x, listed, first, last⟩ := joined.inside e member
    exact ⟨x, listed, by omega, by omega⟩

/-- Joined entries are as spread as those they were joined from. -/
theorem spread (joined : Joined gap before after) (spread : Spread gap limit before) :
    Spread gap limit after where
  apart := joined.apart.imp Nat.le_of_lt
  room x member := by
    obtain ⟨e, listed, starts, within⟩ := (joined.stretch x member).exists_first
    have room := spread.room e listed
    omega
  inside x member := by
    obtain ⟨e, listed, ends⟩ := (joined.stretch x member).exists_last
    exact ends ▸ spread.inside e listed

/-- No two joined entries touch. -/
theorem untouching (joined : Joined gap before after) : Untouching gap after :=
  (joined.apart.imp Nat.ne_of_lt).isChain

private theorem maximal (joined : Joined gap before after) (spread : Spread gap limit before)
    (member : x ∈ after) : MaximalStretch gap before x := by
  -- An old entry is inside of `x`, or apart from it.
  have around : ∀ e ∈ before, x.offset ≤ e.offset ∧
      e.offset + (gap + e.size) ≤ x.offset + (gap + x.size) ∨
        e.offset + (gap + e.size) < x.offset ∨ x.offset + (gap + x.size) < e.offset := by
    intro e listed
    obtain ⟨y, other, first, last⟩ := joined.inside e listed
    by_cases same : y = x
    · subst same
      exact Or.inl ⟨first, last⟩
    · have := or_of_pairwise joined.apart other member same
      omega
  refine ⟨joined.stretch x member, ?_, ?_⟩
  · intro e listed touch
    have room := spread.room e listed
    have := around e listed
    omega
  · intro e listed touch
    have room := spread.room e listed
    have := around e listed
    omega

private theorem mem_of_maximal (joined : Joined gap before after) (spread : Spread gap limit before)
    (maximal : MaximalStretch gap before x) : x ∈ after := by
  obtain ⟨stretch, first, last⟩ := maximal
  obtain ⟨e, listed, starts, within⟩ := stretch.exists_first
  obtain ⟨y, member, low, high⟩ := joined.inside e listed
  have room := spread.room e listed
  have joins := joined.stretch y member
  -- The joined entry that the first one of the stretch is inside of starts where the stretch does,
  have start_eq : y.offset = x.offset := by
    by_contra different
    obtain ⟨f, other, touch⟩ := joins.exists_before spread listed (by omega) (by omega)
    exact first f other (touch.trans starts)
  -- and ends where it does, as neither goes on behind the other.
  have stop_eq : y.offset + (gap + y.size) = x.offset + (gap + x.size) := by
    rcases Nat.lt_trichotomy (y.offset + (gap + y.size)) (x.offset + (gap + x.size)) with
      short | same | long
    · obtain ⟨d, inside, ends⟩ := joins.exists_last
      obtain ⟨f, other, touch⟩ := stretch.exists_behind spread inside (by omega) (by omega)
      exact absurd (touch.trans ends) ((joined.maximal spread member).last f other)
    · exact same
    · obtain ⟨d, inside, ends⟩ := stretch.exists_last
      obtain ⟨f, other, touch⟩ := joins.exists_behind spread inside (by omega) (by omega)
      exact absurd (touch.trans ends) (last f other)
  have same : y = x := by
    cases y
    cases x
    simp only [Entry.mk.injEq] at start_eq stop_eq ⊢
    omega
  exact same ▸ member

end Joined

private theorem stretch_joinTouching : ∀ x ∈ joinTouching gap es,
    Stretch gap es x.offset (x.offset + (gap + x.size)) := by
  induction es using joinTouching.induct gap with
  | case1 =>
    intro x member
    rw [joinTouching] at member
    cases member
  | case2 e =>
    intro x member
    rw [joinTouching] at member
    exact .one member
  | case3 e f rest touch ih =>
    intro x member
    rw [joinTouching_of_touch touch] at member
    refine (ih x member).flatten ?_
    intro d listed
    rcases List.mem_cons.1 listed with rfl | behind
    · -- The joined entry is a stretch of two.
      have second : Stretch gap (e :: f :: rest) f.offset (f.offset + (gap + f.size)) :=
        .one (List.mem_cons_of_mem _ List.mem_cons_self)
      rw [← touch] at second
      have both := second.more List.mem_cons_self
      rwa [show e.offset + (gap + e.size) + (gap + f.size)
        = e.offset + (gap + (e.size + gap + f.size)) by omega] at both
    · exact .one (List.mem_cons_of_mem _ (List.mem_cons_of_mem _ behind))
  | case4 e f rest apart ih =>
    intro x member
    rw [joinTouching_of_apart apart] at member
    rcases List.mem_cons.1 member with rfl | behind
    · exact .one List.mem_cons_self
    · exact (ih x behind).flatten fun d listed => .one (List.mem_cons_of_mem _ listed)

private theorem inside_joinTouching : ∀ e ∈ es, ∃ x ∈ joinTouching gap es,
    x.offset ≤ e.offset ∧ e.offset + (gap + e.size) ≤ x.offset + (gap + x.size) := by
  induction es using joinTouching.induct gap with
  | case1 =>
    intro e member
    cases member
  | case2 e =>
    intro d member
    rw [joinTouching]
    exact ⟨d, member, Nat.le_refl _, Nat.le_refl _⟩
  | case3 e f rest touch ih =>
    intro d member
    rw [joinTouching_of_touch touch]
    obtain ⟨x, listed, first, last⟩ := ih _ List.mem_cons_self
    simp only at first last
    rcases List.mem_cons.1 member with rfl | behind
    · exact ⟨x, listed, first, by omega⟩
    · rcases List.mem_cons.1 behind with rfl | later
      · exact ⟨x, listed, by omega, by omega⟩
      · exact ih d (List.mem_cons_of_mem _ later)
  | case4 e f rest apart ih =>
    intro d member
    rw [joinTouching_of_apart apart]
    rcases List.mem_cons.1 member with rfl | behind
    · exact ⟨d, List.mem_cons_self, Nat.le_refl _, Nat.le_refl _⟩
    · obtain ⟨x, listed, inside⟩ := ih d behind
      exact ⟨x, List.mem_cons_of_mem _ listed, inside⟩

private theorem apart_joinTouching (spread : Spread gap limit es) :
    (joinTouching gap es).Pairwise fun e f => e.offset + (gap + e.size) < f.offset := by
  induction es using joinTouching.induct gap with
  | case1 =>
    rw [joinTouching]
    exact List.Pairwise.nil
  | case2 e =>
    rw [joinTouching]
    exact List.pairwise_singleton _ e
  | case3 e f rest touch ih =>
    rw [joinTouching_of_touch touch]
    exact ih (spread.join touch)
  | case4 e f rest apart ih =>
    rw [joinTouching_of_apart apart]
    refine List.pairwise_cons.2 ⟨?_, ih (spread.sublist (List.sublist_cons_self e _))⟩
    intro x member
    obtain ⟨first, tail⟩ := List.pairwise_cons.1 spread.apart
    have next := Nat.lt_of_le_of_ne (first f List.mem_cons_self) apart
    -- Joining makes no new offsets, so `x` starts where an old entry behind `e` does.
    obtain ⟨y, listed, same⟩ := exists_of_mem_joinTouching member
    rw [← same]
    rcases List.mem_cons.1 listed with rfl | behind
    · exact next
    · have := (List.pairwise_cons.1 tail).1 y behind
      omega

/-- The pass makes joined entries of spread ones. -/
theorem joined_joinTouching (spread : Spread gap limit es) : Joined gap es (joinTouching gap es) :=
  ⟨stretch_joinTouching, inside_joinTouching, apart_joinTouching spread⟩

/-- **Joining what touches makes one entry of each maximal stretch.** -/
theorem mergesMaximally_joinTouching (spread : Spread gap limit es) :
    MergesMaximally gap es (joinTouching gap es) := by
  have joined := joined_joinTouching spread
  refine ⟨?_, joined.apart, fun i => joined.covers, ?_, length_joinTouching_le gap es⟩
  · apply joined.apart.imp
    intro e f apart
    omega
  · intro x
    exact ⟨joined.maximal spread, joined.mem_of_maximal spread⟩

end RegionAlloc
