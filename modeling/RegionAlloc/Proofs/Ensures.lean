import RegionAlloc.Call

/-!
# What a call ensures

`Call.Ensures` relates the state before a call to its result and the state after it. Its rules
follow the ways in which calls are built, so what a call ensures is found by going through it once.

`Call.Reachable` are the states that runs of moves lead to; what every move keeps, every run keeps
(`Call.Reachable.invariant`).
-/

namespace RegionAlloc.Call

variable {σ α β μ : Type} {c : Call σ α} {f : α → Call σ β} {s s' : σ} {a : α} {stop : Prop}

/-- The call ends with a result and a state that `P` holds of, or else with a fault, and that
only if `stop` holds. -/
def Ensures (c : Call σ α) (s : σ) (stop : Prop) (P : α → σ → Prop) : Prop :=
  match (c.run s).result with
  | .ok a => P a (c.run s).state
  | .error _ => stop

/-- A known run ensures what holds at its end. -/
theorem Ensures.of_run {P : α → σ → Prop} {events : List Event}
    (run : c.run s = ⟨.ok a, s', events⟩) (holds : P a s') : c.Ensures s stop P := by
  unfold Ensures
  rw [run]
  exact holds

/-- What is ensured holds at the end of a run that has a result. -/
theorem Ensures.post_of_run {P : α → σ → Prop} {events : List Event}
    (ensures : c.Ensures s stop P) (run : c.run s = ⟨.ok a, s', events⟩) : P a s' := by
  unfold Ensures at ensures
  rw [run] at ensures
  exact ensures

/-- What is ensured may be weakened, and so may what stops the call. -/
theorem Ensures.mono {P P' : α → σ → Prop} {stop' : Prop} (ensures : c.Ensures s stop P)
    (stops : stop → stop') (holds : ∀ a s', P a s' → P' a s') :
    c.Ensures s stop' P' := by
  unfold Ensures at ensures ⊢
  cases result : (c.run s).result with
  | ok a =>
    rw [result] at ensures
    exact holds a _ ensures
  | error fault =>
    rw [result] at ensures
    exact stops ensures

/-- The call ends with a result. -/
def Returns (c : Call σ α) (s : σ) : Prop :=
  ∃ a s' events, c.run s = ⟨.ok a, s', events⟩

/-- A call that nothing stops returns. -/
theorem Ensures.returns {P : α → σ → Prop} (ensures : c.Ensures s stop P) (goes : ¬ stop) :
    c.Returns s := by
  unfold Ensures at ensures
  unfold Returns
  cases run : c.run s with
  | mk result s' events =>
    rw [run] at ensures
    cases result with
    | ok a => exact ⟨a, s', events, rfl⟩
    | error fault => exact absurd ensures goes

/-- A call that is found to end well has run. -/
theorem exists_run (ends : (c.run s).result.toOption = some a) :
    ∃ s' events, c.run s = ⟨.ok a, s', events⟩ := by
  cases run : c.run s with
  | mk result s' events =>
    rw [run] at ends
    cases result with
    | ok b =>
      obtain rfl := Option.some.inj ends
      exact ⟨s', events, rfl⟩
    | error fault => cases ends

/-- A call that ends well went through its first part. -/
theorem exists_of_run_bind {s'' : σ} {b : β} {events : List Event}
    (run : (c >>= f).run s = ⟨.ok b, s'', events⟩) :
    ∃ a s' early late, c.run s = ⟨.ok a, s', early⟩ ∧ (f a).run s' = ⟨.ok b, s'', late⟩ := by
  cases first : c.run s with
  | mk result s' early =>
    cases result with
    | error fault =>
      rw [run_bind_of_error first] at run
      cases run
    | ok a =>
      rw [run_bind_of_ok first] at run
      cases second : (f a).run s' with
      | mk result' s'' late =>
        rw [second] at run
        cases run
        exact ⟨a, s', early, late, rfl, second⟩

/-- What a call ensures if it ends well goes with what it ensures. -/
theorem Ensures.and {P Q : α → σ → Prop} (ensures : c.Ensures s stop P)
    (also : c.Ensures s True Q) : c.Ensures s stop fun a s' => P a s' ∧ Q a s' := by
  unfold Ensures at ensures also ⊢
  cases result : (c.run s).result with
  | ok a =>
    rw [result] at ensures also
    exact ⟨ensures, also⟩
  | error fault =>
    rw [result] at ensures
    exact ensures

/-- What holds already is ensured by doing nothing. -/
theorem Ensures.pure {P : α → σ → Prop} (holds : P a s) :
    (Pure.pure a : Call σ α).Ensures s stop P :=
  Ensures.of_run (run_pure a s) holds

/-- The second call starts from what the first one ensures. -/
theorem Ensures.bind {Q : α → σ → Prop} {P : β → σ → Prop} (first : c.Ensures s stop Q)
    (second : ∀ a s', Q a s' → (f a).Ensures s' stop P) : (c >>= f).Ensures s stop P := by
  unfold Ensures at first
  cases run : c.run s with
  | mk result s' events =>
    rw [run] at first
    cases result with
    | ok a =>
      have next := second a s' first
      unfold Ensures at next ⊢
      rw [run_bind_of_ok run]
      exact next
    | error fault =>
      unfold Ensures
      rw [run_bind_of_error run]
      exact first

/-- A known run may be followed by a call that ensures something. -/
theorem Ensures.run_bind {P : β → σ → Prop} {events : List Event}
    (run : c.run s = ⟨.ok a, s', events⟩) (next : (f a).Ensures s' stop P) :
    (c >>= f).Ensures s stop P :=
  Ensures.bind (Q := fun b t => b = a ∧ t = s') (Ensures.of_run run ⟨rfl, rfl⟩) (by
    rintro _ _ ⟨rfl, rfl⟩
    exact next)

/-- A question with a known answer may come first. -/
theorem Ensures.ask_bind {question : σ → Except Fault α} {P : β → σ → Prop}
    (answer : question s = .ok a) (next : (f a).Ensures s stop P) :
    (ask question >>= f).Ensures s stop P := by
  unfold Ensures at next ⊢
  rwa [run_ask_bind answer]

/-- A question that the state may not answer. -/
theorem Ensures.ask_bind_of_answer {question : σ → Except Fault α} {P : β → σ → Prop}
    (next : ∀ a, question s = .ok a → (f a).Ensures s True P) :
    (ask question >>= f).Ensures s True P := by
  cases answer : question s with
  | ok a => exact Ensures.ask_bind answer (next a answer)
  | error fault =>
    unfold Ensures
    rw [run_ask_bind_of_error answer]
    trivial

/-- The state may be asked for first. -/
theorem Ensures.state_bind {f : σ → Call σ β} {P : β → σ → Prop}
    (next : (f s).Ensures s stop P) : (state >>= f).Ensures s stop P := by
  unfold Ensures at next ⊢
  rwa [run_state_bind]

/-- A change that can be planned ensures what holds of the changed state. -/
theorem Ensures.change {plan : σ → Except Fault α} {step : α → σ → σ} {P : Unit → σ → Prop}
    (planned : plan s = .ok a) (holds : P () (step a s)) :
    (Call.change plan step).Ensures s stop P :=
  Ensures.of_run (run_change planned) holds

/-- A change that the state may not allow. -/
theorem Ensures.change_of_plan {plan : σ → Except Fault α} {step : α → σ → σ}
    {P : Unit → σ → Prop} (stops : ∀ fault, plan s = .error fault → stop)
    (holds : ∀ a, plan s = .ok a → P () (step a s)) :
    (Call.change plan step).Ensures s stop P := by
  cases planned : plan s with
  | ok a => exact Ensures.change planned (holds a planned)
  | error fault =>
    unfold Ensures
    rw [run_change_of_error planned]
    exact stops fault planned

/-- An update ensures what holds of the updated state. -/
theorem Ensures.update {step : σ → σ} {P : Unit → σ → Prop} (holds : P () (step s)) :
    (Call.update step).Ensures s stop P :=
  Ensures.of_run rfl holds

/-- A report changes nothing. -/
theorem Ensures.emit {event : Event} {P : Unit → σ → Prop} (holds : P () s) :
    (emit event : Call σ Unit).Ensures s stop P :=
  Ensures.of_run rfl holds

/-- A report may come first. -/
theorem Ensures.emit_bind {event : Event} {f : Unit → Call σ β} {P : β → σ → Prop}
    (next : (f ()).Ensures s stop P) : (Call.emit event >>= f).Ensures s stop P :=
  Ensures.bind (Ensures.emit (P := fun _ s' => s' = s) rfl) fun _ _ same => same ▸ next

/-- A first part that causes no event leaves the rest of the call. -/
theorem run_bind_of_quiet (run : c.run s = ⟨.ok a, s', []⟩) :
    (c >>= f).run s = (f a).run s' := by
  rw [run_bind_of_ok run]
  rfl

/-- A call that does from here what another one does from there. -/
theorem Ensures.of_same_run {d : Call σ α} {P : α → σ → Prop} (same : c.run s = d.run s')
    (ensures : d.Ensures s' stop P) : c.Ensures s stop P := by
  unfold Ensures at ensures ⊢
  rwa [same]

/-! ## Which fault -/

variable {fault : Fault}

/-- If the call ends with a fault, then with this one. -/
def FaultsOnly (c : Call σ α) (s : σ) (fault : Fault) : Prop :=
  ∀ other, (c.run s).result = .error other → other = fault

/-- Calls that run alike stop alike. -/
theorem FaultsOnly.of_same_run {d : Call σ α} (same : c.run s = d.run s')
    (faults : d.FaultsOnly s' fault) : c.FaultsOnly s fault := by
  unfold FaultsOnly at faults ⊢
  rwa [same]

/-- A call with a result does not stop at all. -/
theorem FaultsOnly.of_run {events : List Event} (run : c.run s = ⟨.ok a, s', events⟩) :
    c.FaultsOnly s fault := by
  intro other stopped
  rw [run] at stopped
  cases stopped

/-- A change stops only where its plan does. -/
theorem FaultsOnly.change {plan : σ → Except Fault α} {step : α → σ → σ}
    (stops : ∀ other, plan s = .error other → other = fault) :
    (Call.change plan step).FaultsOnly s fault := by
  intro other stopped
  cases planned : plan s with
  | ok a =>
    rw [run_change planned] at stopped
    cases stopped
  | error _ =>
    rw [run_change_of_error planned] at stopped
    cases stopped
    exact stops other planned

/-- A call in two parts stops where one of them does. -/
theorem FaultsOnly.bind (first : c.FaultsOnly s fault) (second : ∀ a s' events,
    c.run s = ⟨.ok a, s', events⟩ → (f a).FaultsOnly s' fault) : (c >>= f).FaultsOnly s fault := by
  intro other stopped
  cases run : c.run s with
  | mk result s' events =>
    cases result with
    | ok a =>
      rw [run_bind_of_ok run] at stopped
      exact second a s' events run other stopped
    | error _ =>
      rw [run_bind_of_error run] at stopped
      cases stopped
      exact first other (by rw [run])

/-! ## States that are reached -/

/-- The states that a run of legal moves leads to from a state. A move that faults ends the run. -/
inductive Reachable (perform : μ → Call σ α) (Legal : σ → μ → Prop) (s : σ) : σ → Prop
  | start : Reachable perform Legal s s
  | step {s' s'' : σ} {m : μ} {a : α} {events : List Event} (before : Reachable perform Legal s s')
      (legal : Legal s' m) (run : (perform m).run s' = ⟨.ok a, s'', events⟩) :
      Reachable perform Legal s s''

/-- What is reached by legal moves is reached where more is legal. -/
theorem Reachable.mono {perform : μ → Call σ α} {Legal Legal' : σ → μ → Prop}
    (reachable : Reachable perform Legal s s') (allows : ∀ s m, Legal s m → Legal' s m) :
    Reachable perform Legal' s s' := by
  induction reachable with
  | start => exact .start
  | step _ legal run before => exact before.step (allows _ _ legal) run

/-- What is reached from a state that is reached is reached. -/
theorem Reachable.trans {perform : μ → Call σ α} {Legal : σ → μ → Prop} {s'' : σ}
    (first : Reachable perform Legal s s') (second : Reachable perform Legal s' s'') :
    Reachable perform Legal s s'' := by
  induction second with
  | start => exact first
  | step _ legal run before => exact before.step legal run

/-- What holds at the start and is kept by every legal move holds throughout. -/
theorem Reachable.invariant {perform : μ → Call σ α} {Legal : σ → μ → Prop} {I : σ → Prop}
    (reachable : Reachable perform Legal s s') (start : I s)
    (keeps : ∀ s m, I s → Legal s m → (perform m).Ensures s True fun _ s' => I s') : I s' := by
  induction reachable with
  | start => exact start
  | step _ legal run holds => exact (keeps _ _ holds legal).post_of_run run

/-! ## Runs of given moves -/

/-- The state after the moves. -/
def after (perform : μ → Call σ α) : σ → List μ → σ
  | s, [] => s
  | s, m :: rest => after perform ((perform m).run s).state rest

/-- Every one of the moves is legal when it is made, and ends well. -/
def Goes (perform : μ → Call σ α) (Legal : σ → μ → Prop) : σ → List μ → Prop
  | _, [] => True
  | s, m :: rest =>
    Legal s m ∧ ((perform m).run s).result.isOk = true ∧
      Goes perform Legal ((perform m).run s).state rest

instance decidableGoes (perform : μ → Call σ α) (Legal : σ → μ → Prop)
    [∀ s m, Decidable (Legal s m)] : ∀ s moves, Decidable (Goes perform Legal s moves)
  | _, [] => inferInstanceAs (Decidable True)
  | s, m :: rest =>
    have := decidableGoes perform Legal ((perform m).run s).state rest
    inferInstanceAs (Decidable (_ ∧ _ ∧ _))

/-- Legal moves that end well lead on from a state that is reached. -/
theorem Reachable.of_goes {perform : μ → Call σ α} {Legal : σ → μ → Prop} {moves : List μ}
    (reachable : Reachable perform Legal s s') (goes : Goes perform Legal s' moves) :
    Reachable perform Legal s (after perform s' moves) := by
  induction moves generalizing s' with
  | nil => exact reachable
  | cons m rest ih =>
    obtain ⟨legal, ends, goes⟩ := goes
    refine ih ?_ goes
    cases run : (perform m).run s' with
    | mk result s'' events =>
      rw [run] at ends
      cases result with
      | ok a => exact reachable.step legal run
      | error fault => cases ends

/-- What is computed of the state after given moves, and of a call made then, is known of a state that
runs lead to. -/
theorem exists_run_after {β γ τ : Type} {perform : μ → Call σ α} {Legal : σ → μ → Prop}
    {moves : List μ} (f : σ → β) (k : σ → τ) {c : Call τ γ} {v : β} {r : γ}
    (goes : Goes perform Legal s moves) (known : (f (after perform s moves),
      (c.run (k (after perform s moves))).result.toOption) = (v, some r)) :
    ∃ s' t events, Reachable perform Legal s s' ∧ f s' = v ∧ c.run (k s') = ⟨.ok r, t, events⟩ := by
  obtain ⟨seen, ends⟩ := Prod.mk.inj known
  obtain ⟨t, events, run⟩ := exists_run ends
  exact ⟨_, t, events, Reachable.start.of_goes goes, seen, run⟩

end RegionAlloc.Call
