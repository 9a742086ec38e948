import RegionAlloc.Fault
import RegionAlloc.Record

/-!
# Calls

A call works on a state and ends with a result or a fault. Either way it leaves a state behind, so
what a faulting call has already changed can be seen, and the list of events it caused, in order.
Events are no part of the state: a call that only reports leaves the state equal.

A call is built from questions that only read the state (`Call.ask`), changes (`Call.change`) and
reports (`Call.emit`). A change first finds out from the state whether and how it can be made, and
only then makes it, so a fault leaves the state as it was.
-/

namespace RegionAlloc

/-- The name under which a failure hook is registered. -/
abbrev Hook := Nat

/-- What happens besides the change of the state. -/
inductive Event where
  | logged (record : Record)
  | rang (hook : Hook)
  /-- A hook found this many bytes free. -/
  | sawFree (bytes : Nat)
  /-- A hook tried to allocate, with this result. -/
  | sawAllocation (address : Option Nat)
  deriving DecidableEq, Repr

/-- What a call leaves behind. -/
structure Outcome (σ α : Type) where
  result : Except Fault α
  state : σ
  events : List Event

/-- A computation on a state that may fault. -/
@[ext] structure Call (σ α : Type) where
  run : σ → Outcome σ α

namespace Call

variable {σ α β : Type}

/-- Runs `c` and then `f` on its result; a fault of `c` ends the call. -/
def andThen (c : Call σ α) (f : α → Call σ β) : Call σ β where
  run s :=
    match c.run s with
    | ⟨.ok a, s', events⟩ =>
      match (f a).run s' with
      | ⟨result, s'', more⟩ => ⟨result, s'', events ++ more⟩
    | ⟨.error fault, s', events⟩ => ⟨.error fault, s', events⟩

instance : Monad (Call σ) where
  pure a := ⟨fun s => ⟨.ok a, s, []⟩⟩
  bind := andThen

def state : Call σ σ where
  run s := ⟨.ok s, s, []⟩

/-- Reads something off the state. -/
def ask (question : σ → Except Fault α) : Call σ α where
  run s := ⟨question s, s, []⟩

/-- Changes the state by `step`, once `plan` has found out how; a fault leaves it as it is. -/
def change (plan : σ → Except Fault α) (step : α → σ → σ) : Call σ Unit where
  run s :=
    match plan s with
    | .ok a => ⟨.ok (), step a s, []⟩
    | .error fault => ⟨.error fault, s, []⟩

/-- Replaces the state by a step that cannot fault. -/
def update (step : σ → σ) : Call σ Unit where
  run s := ⟨.ok (), step s, []⟩

def emit (event : Event) : Call σ Unit where
  run s := ⟨.ok (), s, [event]⟩

def fail (fault : Fault) : Call σ α where
  run s := ⟨.error fault, s, []⟩

/-- What is there already changes nothing and reports nothing. -/
@[simp] theorem run_pure (a : α) (s : σ) : (pure a : Call σ α).run s = ⟨.ok a, s, []⟩ := rfl

/-- A call that ends with a result is followed by the next one, and the events of both are reported in
order. -/
theorem run_bind_of_ok {c : Call σ α} {f : α → Call σ β} {s s' : σ} {a : α}
    {events : List Event} (h : c.run s = ⟨.ok a, s', events⟩) :
    (c >>= f).run s
      = ⟨((f a).run s').result, ((f a).run s').state, events ++ ((f a).run s').events⟩ := by
  change (andThen c f).run s = _
  simp only [andThen, h]

/-- A call that stops is not followed by anything. -/
theorem run_bind_of_error {c : Call σ α} {f : α → Call σ β} {s s' : σ} {fault : Fault}
    {events : List Event} (h : c.run s = ⟨.error fault, s', events⟩) :
    (c >>= f).run s = ⟨.error fault, s', events⟩ := by
  change (andThen c f).run s = _
  simp only [andThen, h]

instance : LawfulMonad (Call σ) :=
  LawfulMonad.mk' (Call σ)
    (by
      intro α c
      ext s : 2
      cases h : c.run s with
      | mk result s' events => cases result <;> simp [Functor.map, andThen, h])
    (by
      intro α β a f
      ext s : 2
      simp [bind, andThen, pure])
    (by
      intro α β γ c f g
      ext s : 2
      simp only [bind, andThen]
      cases h : c.run s with
      | mk result s' events =>
        cases result with
        | error fault => simp
        | ok a =>
          cases h' : (f a).run s' with
          | mk result' s'' events' => cases result' <;> simp [h'])

/-- To ask for the state is to go on with it. -/
@[simp] theorem run_state_bind (f : σ → Call σ β) (s : σ) :
    (state >>= f).run s = (f s).run s := by
  have hrun : (state : Call σ σ).run s = ⟨.ok s, s, []⟩ := rfl
  simp [run_bind_of_ok hrun]

/-- A question that has an answer leaves the state as it is and reports nothing. -/
theorem run_ask_bind {question : σ → Except Fault α} {f : α → Call σ β} {s : σ} {a : α}
    (h : question s = .ok a) : (ask question >>= f).run s = (f a).run s := by
  have hrun : (ask question).run s = ⟨.ok a, s, []⟩ := by simp [ask, h]
  simp [run_bind_of_ok hrun]

/-- A question without an answer stops the call before anything has changed. -/
theorem run_ask_bind_of_error {question : σ → Except Fault α} {f : α → Call σ β} {s : σ}
    {fault : Fault} (h : question s = .error fault) :
    (ask question >>= f).run s = ⟨.error fault, s, []⟩ :=
  run_bind_of_error (by simp [ask, h])

/-- A planned change is made all at once. -/
theorem run_change {plan : σ → Except Fault α} {step : α → σ → σ} {s : σ} {a : α}
    (h : plan s = .ok a) : (change plan step).run s = ⟨.ok (), step a s, []⟩ := by
  simp [change, h]

/-- A change that cannot be planned is not begun. -/
theorem run_change_of_error {plan : σ → Except Fault α} {step : α → σ → σ} {s : σ}
    {fault : Fault} (h : plan s = .error fault) :
    (change plan step).run s = ⟨.error fault, s, []⟩ := by
  simp [change, h]

/-- A reported event comes before those of what follows. -/
@[simp] theorem run_emit_bind (event : Event) (f : Unit → Call σ β) (s : σ) :
    (emit event >>= f).run s
      = ⟨((f ()).run s).result, ((f ()).run s).state, event :: ((f ()).run s).events⟩ := by
  have hrun : (emit event).run s = ⟨.ok (), s, [event]⟩ := rfl
  simp [run_bind_of_ok hrun]

end Call

end RegionAlloc
