import RegionAlloc.Proofs.Tagged.Runs
import RegionAlloc.Proofs.TwoList.Runs

/-!
# Legal use never faults

Every check that the allocators make of themselves ends a call with a fault if it fails, as does a
walk without end, and where sums and differences trap so does each one that is no word. None of
these faults can come up in a client's legal use of a heap that has had fewer than `2 ^ 64` calls.
-/

namespace RegionAlloc

namespace Client

variable {σ μ : Type} [ClientMove μ] [Managed σ μ] {h : σ}

/-- No legal move faults, the heap tells its statistics, and the audit approves of it. -/
structure Faultless (s : Client σ) : Prop where
  moves : ∀ move, Managed.Legal s move → (Managed.perform move).Returns s
  statistics : ∃ stats, Managed.statistics s.heap = .ok stats
  audit : Managed.isSound s.heap = .ok true

/-- At every point of every run with fewer than `2 ^ 64` calls nothing faults. -/
def NeverFaults (h : σ) : Prop :=
  ∀ (steps : List (Step σ μ)) (s : Client σ), Runs h steps s →
    steps.countP Step.isCall < 0x10000000000000000 → Faultless s

/-- Runs that are in order never fault. -/
theorem RunsInOrder.never_faults (order : RunsInOrder h) : NeverFaults h := by
  intro steps s runs few
  obtain ⟨⟨free, live, kept⟩, books⟩ := order steps s runs
  have room := books.hasRoom few kept.few
  refine ⟨fun move legal => ?_, ⟨_, kept.statistics⟩, kept.sound⟩
  exact (kept.ends move legal).returns fun full => full room

end Client

/-- **Legal use never faults**, whatever the settings and whatever the machine does with sums that
are no words. A client of a tagged heap writes only into what it was given and gives back only that
or the null address; one of a two-list heap may give back any address. -/
theorem legal_use_never_faults :
    (∀ {region settings overflow h}, Tagged.Heap.create region settings overflow = .ok h →
      Client.NeverFaults h) ∧
    ∀ {region overflow h}, TwoList.Heap.create region overflow = .ok h → Client.NeverFaults h :=
  ⟨fun created => (Tagged.runs_in_order created).never_faults,
    fun created => (TwoList.runs_in_order created).never_faults⟩

/-- Two runs that never fault, one of a tagged heap with two grants, one of a two-list heap with
one. -/
theorem legal_use_never_faults_on_runs :
    (∃ s : Client Tagged.Heap, s.grants.map Grant.address = [4128, 4160] ∧ Client.Faultless s) ∧
    ∃ s : Client TwoList.Heap, s.grants.map Grant.address = [4136] ∧ Client.Faultless s := by
  constructor
  · obtain ⟨h, s, steps, created, runs, granted, counted⟩ := Tagged.runs_mixedRun
    simp only [Prod.mk.injEq] at counted
    have few : steps.countP Client.Step.isCall < 0x10000000000000000 := by
      rw [counted.2.2]
      decide
    have addresses := Grant.map_address_of_map granted
    exact ⟨s, addresses, legal_use_never_faults.1 created steps s runs few⟩
  · obtain ⟨h, s, steps, created, runs, granted, counted⟩ := TwoList.runs_smallRun
    simp only [Prod.mk.injEq] at counted
    have few : steps.countP Client.Step.isCall < 0x10000000000000000 := by
      rw [counted.2.2]
      decide
    have addresses := Grant.map_address_of_map granted
    exact ⟨s, addresses, legal_use_never_faults.2 created steps s runs few⟩

end RegionAlloc
