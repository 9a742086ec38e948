import RegionAlloc.Proofs.Client

/-!
# Two calls side by side

`Call.Together` compares two calls, each on a state of its own: both end well, and their results and
states are related, or both fault. Two calls that each ensure something end together if neither can
be stopped where the other one goes on (`Together.of_ensures`); from there the rules follow the ways
in which calls are built.
-/

namespace RegionAlloc

namespace Call

variable {σ τ α β γ δ : Type} {c : Call σ α} {d : Call τ β} {s : σ} {t : τ} {stop stop' : Prop}

/-- Both calls end well, with results and states that `P` holds of, or else both with a fault, and
that only if `stop` holds. -/
def Together (c : Call σ α) (d : Call τ β) (s : σ) (t : τ) (stop : Prop)
    (P : α → σ → β → τ → Prop) : Prop :=
  match (c.run s).result, (d.run t).result with
  | .ok a, .ok b => P a (c.run s).state b (d.run t).state
  | .error _, .error _ => stop
  | _, _ => False

/-- Neither call stops where the other one goes on. -/
theorem Together.of_ensures {P : α → σ → Prop} {Q : β → τ → Prop} {R : α → σ → β → τ → Prop}
    (first : c.Ensures s stop P) (second : d.Ensures t stop' Q)
    (goes : ∀ a s', P a s' → ¬ stop') (goes' : ∀ b t', Q b t' → ¬ stop)
    (both : ∀ a s' b t', P a s' → Q b t' → R a s' b t') : c.Together d s t stop R := by
  unfold Ensures at first second
  unfold Together
  cases result : (c.run s).result with
  | ok a =>
    rw [result] at first
    cases result' : (d.run t).result with
    | ok b =>
      rw [result'] at second
      exact both a _ b _ first second
    | error fault =>
      rw [result'] at second
      exact goes a _ first second
  | error fault =>
    rw [result] at first
    cases result' : (d.run t).result with
    | ok b =>
      rw [result'] at second
      exact goes' b _ second first
    | error fault' => exact first

/-- What two calls ensure together may be weakened, and so may what stops them. -/
theorem Together.mono {P Q : α → σ → β → τ → Prop} (together : c.Together d s t stop P)
    (stops : stop → stop') (holds : ∀ a s' b t', P a s' b t' → Q a s' b t') :
    c.Together d s t stop' Q := by
  unfold Together at together ⊢
  cases result : (c.run s).result with
  | ok a =>
    cases result' : (d.run t).result with
    | ok b =>
      rw [result, result'] at together
      exact holds a _ b _ together
    | error fault =>
      rw [result, result'] at together
      exact together
  | error fault =>
    cases result' : (d.run t).result with
    | ok b =>
      rw [result, result'] at together
      exact together
    | error fault' =>
      rw [result, result'] at together
      exact stops together

/-- Two calls that never stop. -/
theorem Together.of_ends {P : α → σ → Prop} {Q : β → τ → Prop} {R : α → σ → β → τ → Prop}
    (first : c.Ensures s False P) (second : d.Ensures t False Q)
    (both : ∀ a s' b t', P a s' → Q b t' → R a s' b t') : c.Together d s t stop R :=
  (Together.of_ensures first second (fun _ _ _ => id) (fun _ _ _ => id) both).mono False.elim
    fun _ _ _ _ => id

/-- What calls that end together lead to if the first one ends well. -/
theorem Together.of_run {P : α → σ → β → τ → Prop} {a : α} {s' : σ} {b : β} {t' : τ}
    {events events' : List Event} (together : c.Together d s t stop P)
    (run : c.run s = ⟨.ok a, s', events⟩) (run' : d.run t = ⟨.ok b, t', events'⟩) :
    P a s' b t' := by
  unfold Together at together
  rw [run, run'] at together
  exact together

/-- The second calls start from what the first ones lead to. -/
theorem Together.bind {f : α → Call σ γ} {g : β → Call τ δ} {P : γ → σ → δ → τ → Prop}
    {Q : α → σ → β → τ → Prop} (first : c.Together d s t stop Q)
    (second : ∀ a s' b t', Q a s' b t' → (f a).Together (g b) s' t' stop P) :
    (c >>= f).Together (d >>= g) s t stop P := by
  unfold Together at first
  cases run : c.run s with
  | mk result s' events =>
    cases run' : d.run t with
    | mk result' t' events' =>
      rw [run, run'] at first
      cases result with
      | ok a =>
        cases result' with
        | ok b =>
          have next := second a s' b t' first
          unfold Together at next ⊢
          rw [run_bind_of_ok run, run_bind_of_ok run']
          exact next
        | error fault => exact first.elim
      | error fault =>
        cases result' with
        | ok b => exact first.elim
        | error fault' =>
          unfold Together
          rw [run_bind_of_error run, run_bind_of_error run']
          exact first

/-- A call that ends well whatever it starts from, with this result and this state. -/
def Settles (f : α → Call σ γ) (result : α → γ) (step : α → σ → σ) : Prop :=
  ∀ a s, (f a).Ensures s False fun c s' => c = result a ∧ s' = step a s

/-- What only settles on both sides adds nothing to what the calls before it lead to. -/
theorem Together.bind_settles {f : α → Call σ γ} {g : β → Call τ δ} {P : γ → σ → δ → τ → Prop}
    {result : α → γ} {step : α → σ → σ} {result' : β → δ} {step' : β → τ → τ}
    (settles : Settles f result step) (settles' : Settles g result' step')
    (first : c.Together d s t stop fun a s' b t' =>
      P (result a) (step a s') (result' b) (step' b t')) :
    (c >>= f).Together (d >>= g) s t stop P := by
  apply Together.bind first
  intro a s' b t' related
  apply Together.of_ends (settles a s') (settles' b t')
  intro x s₁ y t₁ left right
  obtain ⟨rfl, rfl⟩ := left
  obtain ⟨rfl, rfl⟩ := right
  exact related

end Call

/-! ## Clients side by side -/

namespace Client

open Call

variable {σ : Type} {s t : Client σ} {heap heap' : σ} {stop : Prop}

private theorem together_onHeap {α β : Type} {c : Call σ α} {d : Call σ β}
    {P : α → Client σ → β → Client σ → Prop}
    (together : c.Together d s.heap t.heap stop fun a heap b heap' =>
      P a { s with heap } b { t with heap := heap' }) : (onHeap c).Together (onHeap d) s t stop P := by
  unfold Together at together ⊢
  unfold onHeap
  exact together

/-- After an attempt a bare heap does no more than ring a hook that does nothing to it. -/
theorem settles_ringing [Allocator σ] (request : Nat) :
    Settles (fun place : Option Nat => match place with
      | some address => return some address
      | none =>
        if request = 0 then
          return none
        else do
          Allocator.ring (Allocator.hook (σ := σ)) fun _ => pure ()
          return none) id fun _ => id := by
  intro place heap
  cases place with
  | some address => exact Ensures.pure ⟨rfl, rfl⟩
  | none =>
    by_cases nothing : request = 0
    · simp only [if_pos nothing]
      exact Ensures.pure ⟨rfl, rfl⟩
    · simp only [if_neg nothing]
      exact Ensures.bind (ensures_ring heap) fun _ _ same => Ensures.pure ⟨rfl, same⟩

/-- What the bare attempts of two heaps come to, their allocations come to. -/
theorem together_allocate [Allocator σ] {request : Nat} {P : Option Nat → σ → Option Nat → σ → Prop}
    (together : (Allocator.tryAllocate request : Call σ _).Together (Allocator.tryAllocate request)
      heap heap' stop P) :
    (Allocator.allocate request : Call σ _).Together (Allocator.allocate request) heap heap'
      stop P :=
  Together.bind_settles (settles_ringing request) (settles_ringing request) together

/-- The heap with the memory at a place, if there is one, overwritten with zeros. -/
def zeroedAt [HasRegion σ] (bytes : Nat) (place : Option Nat) (heap : σ) : σ :=
  match place with
  | none => heap
  | some address =>
    HasRegion.modifyRegion heap fun region => region.writeAt address (List.replicate bytes 0)

/-- Two allocations are zeroed together. -/
theorem together_zeroedBy [HasRegion σ] {allocate : Nat → Call σ (Option Nat)} {count size : Nat}
    {P : Option Nat → σ → Option Nat → σ → Prop} (nothing : P none heap none heap')
    (together : (allocate (count * size)).Together (allocate (count * size)) heap heap' stop
      fun place h place' h' =>
        P place (zeroedAt (count * size) place h) place' (zeroedAt (count * size) place' h')) :
    (Allocator.zeroedBy allocate count size).Together (Allocator.zeroedBy allocate count size)
      heap heap' stop P := by
  unfold Allocator.zeroedBy
  cases product : Word.mul? count size with
  | none => exact nothing
  | some bytes =>
    obtain ⟨rfl, _⟩ := Word.ofNat?_eq_some.1 product
    have settles : Settles (fun place : Option Nat => match place with
        | none => return none
        | some address => do
          HasRegion.writeAt (σ := σ) address (List.replicate (count * size) 0)
          return some address) id (zeroedAt (count * size)) := by
      intro place heap
      cases place with
      | none => exact Ensures.pure ⟨rfl, rfl⟩
      | some address => exact Ensures.of_run rfl ⟨rfl, rfl⟩
    exact Together.bind_settles settles settles together

/-- Two grants are entered into two ledgers. -/
theorem together_keep {c d : Call σ (Option Nat)} {grant : Nat → Grant}
    {P : Option Nat → Client σ → Option Nat → Client σ → Prop}
    (together : c.Together d s.heap t.heap stop fun place heap place' heap' =>
      P place { heap, grants := (place.map grant).toList ++ s.grants }
        place' { heap := heap', grants := (place'.map grant).toList ++ t.grants }) :
    (keep c grant).Together (keep d grant) s t stop P := by
  have settles : Settles (fun place : Option Nat => match place with
      | none => pure none
      | some address => do
        Call.update fun s : Client σ => { s with grants := grant address :: s.grants }
        return some address) id
      fun place s => { s with grants := (place.map grant).toList ++ s.grants } := by
    intro place s
    cases place with
    | none => exact Ensures.pure ⟨rfl, rfl⟩
    | some address => exact Ensures.of_run rfl ⟨rfl, rfl⟩
  exact Together.bind_settles settles settles (together_onHeap together)

/-- Two releases are struck from two ledgers. -/
theorem together_giveBack [Allocator σ] {address address' : Nat}
    {P : Option Nat → Client σ → Option Nat → Client σ → Prop}
    (together : (Allocator.release address : Call σ Unit).Together (Allocator.release address')
      s.heap t.heap stop fun _ heap _ heap' =>
        P none { heap, grants := s.grants.filter fun g => g.address != address }
          none { heap := heap', grants := t.grants.filter fun g => g.address != address' }) :
    (giveBack address).Together (giveBack address') s t stop P := by
  have settles : ∀ address, Settles (fun _ : Unit => do
      Call.update fun s : Client σ =>
        { s with grants := s.grants.filter fun g => g.address != address }
      return none) (fun _ => (none : Option Nat))
      fun _ s => { s with grants := s.grants.filter fun g => g.address != address } :=
    fun address _ s => Ensures.of_run rfl ⟨rfl, rfl⟩
  exact Together.bind_settles (settles address) (settles address') (together_onHeap together)

end Client

end RegionAlloc
