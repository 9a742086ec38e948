import RegionAlloc.Proofs.Stretches
import RegionAlloc.Proofs.TwoList.Runs

/-!
# The merge pass over any free chain

A release leaves at most three free blocks in a row, but the pass that it ends with merges whatever
touches. Here the free chain is any that leads upwards through blocks apart from each other, and the used
chain may be any (`merge_pass_is_maximal`). So may the counters, but the headers that are merged count as
free bytes, and a counter without room for them stops the pass or wraps around.
-/

namespace RegionAlloc.TwoList

open Block Region

namespace Heap

variable {h : Heap} {es : List Entry}

/-- The pass comes to an end, unless it has too many bytes to count. -/
theorem mergeFrom_faultsOnly (chained : Chained code h.region none es)
    (spread : Spread 16 h.region.size es) (fuel : Nat) :
    (mergeFrom (es.length + fuel) (leadsTo none es)).FaultsOnly h .addOverflow := by
  induction es using joinTouching.induct 16 generalizing h with
  | case1 =>
    rw [leadsTo, mergeFrom]
    exact Call.FaultsOnly.of_run (Call.run_pure () h)
  | case2 e => exact Call.FaultsOnly.of_run (run_mergeFrom_last chained fuel)
  | case3 e f rest touch ih =>
    apply Call.FaultsOnly.of_same_run (run_mergeFrom_touch chained spread fuel touch)
    have joining : (joinNext e.offset f.offset).FaultsOnly h .addOverflow := by
      apply Call.FaultsOnly.of_same_run (run_joinNext chained spread)
      exact Call.FaultsOnly.change fun _ stopped => (Usage.overruns_of_reclaim stopped).1
    apply joining.bind
    intro _ h₁ events run
    obtain ⟨joined, merges⟩ := (joinNext_ensures chained spread).post_of_run run
    have size := merges.region.sameSize
    exact ih joined (size ▸ spread.join touch)
  | case4 e f rest apart ih =>
    apply Call.FaultsOnly.of_same_run (run_mergeFrom_apart chained spread fuel apart)
    exact ih chained.2.2.2 (spread.sublist (List.sublist_cons_self e _))

/-- Where no two blocks touch, the pass does nothing. -/
theorem run_mergeFrom_of_untouching (chained : Chained code h.region none es)
    (spread : Spread 16 h.region.size es) (untouching : Untouching 16 es) (fuel : Nat) :
    (mergeFrom (es.length + fuel) (leadsTo none es)).run h = ⟨.ok (), h, []⟩ := by
  induction es with
  | nil =>
    rw [leadsTo, mergeFrom]
    rfl
  | cons e rest ih =>
    cases rest with
    | nil => exact run_mergeFrom_last chained fuel
    | cons f rest =>
      obtain ⟨apart, later⟩ := List.isChain_cons_cons.1 untouching
      rw [run_mergeFrom_apart chained spread fuel apart]
      exact ih chained.2.2.2 (spread.sublist (List.sublist_cons_self e _)) later

/-- The heaps before and after a pass that found the free blocks `before` and left `after`. Besides the
headers of free blocks and the counter of free bytes nothing changed, and a second pass would change
nothing at all. -/
structure Swept (before after : List Entry) (h h' : Heap) : Prop extends Merges before after h h' where
  leads : h'.Leads .free after none
  again : mergeTouching.run h' = ⟨.ok (), h', []⟩

end Heap

variable {h : Heap} {es : List Entry}

/-- The pass leaves nothing for a second one. -/
theorem mergeTouching_sweeps (leads : h.Leads .free es none) (spread : Spread 16 h.region.size es) :
    Heap.mergeTouching.Ensures h
      (h.usage.Overruns h.overflow (16 * (es.length - (joinTouching 16 es).length))) fun _ h' =>
        Heap.Swept es (joinTouching 16 es) h h' := by
  refine (Heap.mergeTouching_joins leads spread).mono id ?_
  rintro _ h' ⟨leads', merges⟩
  have joined := joined_joinTouching spread
  have spread' : Spread 16 h'.region.size (joinTouching 16 es) := by
    rw [merges.region.sameSize]
    exact joined.spread spread
  obtain ⟨fuel, run⟩ := Heap.exists_run_mergeTouching leads' spread'
  refine ⟨merges, leads', ?_⟩
  rw [run]
  exact Heap.run_mergeFrom_of_untouching leads'.chained spread' joined.untouching fuel

/-- **The merge pass makes one block of each maximal stretch of free blocks**, however many there are and
however long they are. Where the counter of free bytes has room for the headers that are merged, the pass
comes to an end and the counter grows by just these. Where it has none, the pass is stopped by that sum or,
with sums that wrap around, ends all the same. -/
theorem merge_pass_is_maximal (leads : h.Leads .free es none)
    (spread : Spread 16 h.region.size es) : ∃ after, MergesMaximally 16 es after ∧
      (h.usage.free + 16 * (es.length - after.length) < 0x10000000000000000 →
        ∃ h' events, Heap.mergeTouching.run h = ⟨.ok (), h', events⟩ ∧ Heap.Swept es after h h' ∧
          h'.usage.free = h.usage.free + 16 * (es.length - after.length)) ∧
      Heap.mergeTouching.FaultsOnly h .addOverflow ∧
      Heap.mergeTouching.Ensures h
        (h.usage.Overruns h.overflow (16 * (es.length - after.length))) fun _ h' =>
          Heap.Swept es after h h' := by
  obtain ⟨fuel, run⟩ := Heap.exists_run_mergeTouching leads spread
  have ensures := mergeTouching_sweeps leads spread
  refine ⟨joinTouching 16 es, mergesMaximally_joinTouching spread, fun room => ?_, ?_, ensures⟩
  · have fits : ¬ h.usage.Overruns h.overflow (16 * (es.length - (joinTouching 16 es).length)) :=
      fun overruns => absurd room (Nat.not_lt.2 overruns.2)
    obtain ⟨_, h', events, returned⟩ := ensures.returns fits
    have swept := ensures.post_of_run returned
    exact ⟨h', events, returned, swept, swept.freed.eq_of_room room⟩
  · exact Call.FaultsOnly.of_same_run run (Heap.mergeFrom_faultsOnly leads.chained spread fuel)

/-- A hundred and twelve bytes. -/
def roomyRegion : Region where
  base := 8200
  bytes := ⟨Array.replicate 112 0⟩
  basePos := by decide
  sizeLt := by decide +kernel
  endLe := by decide +kernel

/-- Three free blocks in a row, one of them empty, and two more in a row farther on. -/
def strewnHeap : Heap :=
  written roomyRegion [(0, 20), (8, 4), (20, 36), (28, 0), (36, 64), (44, 8), (64, 80), (72, 0),
    (80, Word.nil), (88, 16)] (some 0) none 28

set_option maxRecDepth 4000 in
/-- The five blocks are swept, and the counter grows by the headers of those that are merged. -/
theorem merge_pass_is_maximal_strewnHeap : ∃ after h' events,
    Heap.mergeTouching.run strewnHeap = ⟨.ok (), h', events⟩ ∧
      MergesMaximally 16 [⟨0, 4⟩, ⟨20, 0⟩, ⟨36, 8⟩, ⟨64, 0⟩, ⟨80, 16⟩] after ∧
      Heap.Swept [⟨0, 4⟩, ⟨20, 0⟩, ⟨36, 8⟩, ⟨64, 0⟩, ⟨80, 16⟩] after strewnHeap h' ∧
      h'.usage.free = 28 + 16 * (5 - after.length) := by
  have leads : strewnHeap.Leads .free [⟨0, 4⟩, ⟨20, 0⟩, ⟨36, 8⟩, ⟨64, 0⟩, ⟨80, 16⟩] none :=
    ⟨rfl, by decide +kernel⟩
  have spread : Spread 16 strewnHeap.region.size [⟨0, 4⟩, ⟨20, 0⟩, ⟨36, 8⟩, ⟨64, 0⟩, ⟨80, 16⟩] :=
    ⟨by decide, by decide, by decide +kernel⟩
  obtain ⟨after, maximal, counts, _⟩ := merge_pass_is_maximal leads spread
  have free : strewnHeap.usage.free = 28 := rfl
  have room : strewnHeap.usage.free + 16 * (5 - after.length) < 0x10000000000000000 := by omega
  obtain ⟨h', events, run, swept, grown⟩ := counts room
  exact ⟨after, h', events, run, maximal, swept, grown⟩

/-- Three free blocks in a row fill the region, and the counter of free bytes is three short of what no
word holds any more. -/
def brimmingHeap (overflow : Overflow) : Heap :=
  { written roomyRegion [(0, 24), (8, 8), (24, 48), (32, 8), (48, Word.nil), (56, 48)] (some 0) none
      0xFFFFFFFFFFFFFFFD with overflow }

set_option maxRecDepth 4000 in
/-- Without that room the counter does not grow by what was merged: the pass is stopped halfway, or it
merges all three blocks and leaves the counter at 29. -/
theorem merge_pass_overruns_brimmingHeap :
    (∀ overflow, (brimmingHeap overflow).Leads .free [⟨0, 8⟩, ⟨24, 8⟩, ⟨48, 48⟩] none) ∧
      Spread 16 roomyRegion.size [⟨0, 8⟩, ⟨24, 8⟩, ⟨48, 48⟩] ∧
      ((Heap.mergeTouching.run (brimmingHeap .trap)).result = .error .addOverflow ∧
        (Heap.mergeTouching.run (brimmingHeap .trap)).state.entries .free
          = .ok [⟨0, 32⟩, ⟨48, 48⟩]) ∧
      (Heap.mergeTouching.run (brimmingHeap .wrap)).result = .ok () ∧
        (Heap.mergeTouching.run (brimmingHeap .wrap)).state.entries .free = .ok [⟨0, 96⟩] ∧
        (Heap.mergeTouching.run (brimmingHeap .wrap)).state.usage.free = 29 ∧
        29 < (brimmingHeap .wrap).usage.free + 16 * (3 - 1) := by
  refine ⟨fun overflow => ⟨rfl, ?_⟩, ⟨by decide, by decide, by decide +kernel⟩, ?_, ?_⟩
  · cases overflow <;> decide +kernel
  · decide +kernel
  · decide +kernel

end RegionAlloc.TwoList
