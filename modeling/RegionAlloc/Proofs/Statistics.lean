import RegionAlloc.Proofs.Tagged.Runs
import RegionAlloc.Proofs.TwoList.Runs

/-!
# What the statistics say

Half of a heap's figures are drawn from its free list and half are counters kept as it runs. Over
every run both say what happened: `Client.Exact` compares them with the free blocks that the heap
shows and with the steps of the run.
-/

namespace RegionAlloc

namespace Client

variable {σ μ : Type} [ClientMove μ] [Managed σ μ] {h : σ} {s : Client σ} {steps : List (Step σ μ)}
  {free live : List Entry}

/-- The bytes that the heap told to be available at the points between the steps of a run, from the
last reset of the low-water mark on. -/
def toldAvailable (steps : List (Step σ μ)) (s : Client σ) : Set Nat :=
  {n | ∃ t ∈ points steps s, ∃ stats, Managed.statistics t.heap = .ok stats ∧
    stats.availableBytes = n}

/-- The figures tell the sum, the number and the extremes of the sizes of the free blocks, how few
bytes were available since the last reset, and how many steps gave memory and took some back. Of no
block the extremes are zero. -/
structure Exact (free : List Entry) (steps : List (Step σ μ)) (s : Client σ) (stats : Statistics) :
    Prop where
  available : stats.availableBytes = (free.map Entry.size).sum
  number : stats.freeBlocks = free.length
  largest : stats.largestFree = (free.map Entry.size).max?.getD 0
  smallest : stats.smallestFree = (free.map Entry.size).min?.getD 0
  lowWater : IsLeast (toldAvailable steps s) stats.lowWater
  allocations : (Managed.overflow s.heap).Counts (steps.countP Step.gave) stats.allocations
  frees : (Managed.overflow s.heap).Counts (steps.countP Step.took) stats.frees

/-- At every point of every run the figures are exact. -/
def TellsExactly (h : σ) : Prop :=
  ∀ (steps : List (Step σ μ)) (s : Client σ), Runs h steps s →
    ∃ free live stats, Managed.Displays s.heap free live ∧
      Managed.statistics s.heap = .ok stats ∧ Exact free steps s stats

/-- What was told is what was free. -/
theorem RunsInOrder.toldAvailable_eq (order : RunsInOrder h) (runs : Runs h steps s) :
    toldAvailable steps s = freeAt steps s := by
  have told : ∀ t ∈ points steps s, ∃ survey,
      Managed.statistics t.heap = .ok (.ofSurvey survey (Managed.usage t.heap)) := by
    intro t member
    obtain ⟨older, before⟩ := runs.of_mem_points member
    obtain ⟨⟨free, live, kept⟩, _⟩ := order older t before
    exact ⟨_, kept.statistics⟩
  ext n
  constructor
  · rintro ⟨t, member, stats, asked, rfl⟩
    obtain ⟨survey, answer⟩ := told t member
    obtain rfl := Except.ok.inj (asked.symm.trans answer)
    exact ⟨t, member, rfl⟩
  · rintro ⟨t, member, rfl⟩
    obtain ⟨survey, answer⟩ := told t member
    exact ⟨t, member, _, answer, rfl⟩

private theorem RunsInOrder.tells_exactly (order : RunsInOrder h) : TellsExactly h := by
  intro steps s runs
  obtain ⟨⟨free, live, kept⟩, books⟩ := order steps s runs
  refine ⟨free, live, _, kept.displays, kept.statistics, ?_⟩
  exact {
    available := kept.counted
    number := Survey.count_ofEntries free
    largest := Survey.largest_ofEntries free
    smallest := congrArg (Option.getD · 0) (Survey.smallest_ofEntries free)
    lowWater := order.toldAvailable_eq runs ▸ books.lowWater
    allocations := books.allocations
    frees := books.frees }

end Client

/-- **The statistics are exact over every run**, of tagged heaps and of two-list heaps. -/
theorem statistics_exact :
    (∀ {region settings overflow h}, Tagged.Heap.create region settings overflow = .ok h →
      Client.TellsExactly h) ∧
    ∀ {region overflow h}, TwoList.Heap.create region overflow = .ok h → Client.TellsExactly h :=
  ⟨fun created => (Tagged.runs_in_order created).tells_exactly,
    fun created => (TwoList.runs_in_order created).tells_exactly⟩

/-- The statistics of two runs, with four allocations and two releases counted, and with two and
one. -/
theorem statistics_exact_on_runs :
    (∃ (s : Client Tagged.Heap) (steps : List (Client.Step Tagged.Heap Tagged.Move)),
      (steps.countP Client.Step.gave, steps.countP Client.Step.took) = (4, 2) ∧
        ∃ free stats, s.heap.statistics = .ok stats ∧ Client.Exact free steps s stats) ∧
    ∃ (s : Client TwoList.Heap) (steps : List (Client.Step TwoList.Heap Move)),
      (steps.countP Client.Step.gave, steps.countP Client.Step.took) = (2, 1) ∧
        ∃ free stats, s.heap.statistics = .ok stats ∧ Client.Exact free steps s stats := by
  constructor
  · obtain ⟨h, s, steps, created, runs, _, counted⟩ := Tagged.runs_mixedRun
    obtain ⟨free, live, stats, _, told, exact⟩ := statistics_exact.1 created steps s runs
    simp only [Prod.mk.injEq] at counted ⊢
    exact ⟨s, steps, ⟨counted.1, counted.2.1⟩, free, stats, told, exact⟩
  · obtain ⟨h, s, steps, created, runs, _, counted⟩ := TwoList.runs_smallRun
    obtain ⟨free, live, stats, _, told, exact⟩ := statistics_exact.2 created steps s runs
    simp only [Prod.mk.injEq] at counted ⊢
    exact ⟨s, steps, ⟨counted.1, counted.2.1⟩, free, stats, told, exact⟩

end RegionAlloc
