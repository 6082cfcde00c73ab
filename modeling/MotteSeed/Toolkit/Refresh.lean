import MotteSeed.Toolkit.Runs

/-! A value that is renewed when it has become too old. A use of the cache asks for a
new value exactly when the old one is stale; an answer replaces value and time
together, a failure replaces neither. A client that keeps to this law never hands out
an old value behind a failed renewal, since staleness only grows with time. -/
namespace Toolkit.Refresh
open Runs

universe u v w
variable {Value Error Answer : Type w} {State : Type u} {Input : Type v}

structure Cache (Value : Type w) where
  value : Value
  renewedAt : Nat

/-- Whether a value of this age must be renewed; older ones must be as well. -/
structure Staleness (Value : Type w) where
  stale : Value → Nat → Bool
  grows : ∀ value young old, young ≤ old → stale value young = true → stale value old = true

def Staleness.due (staleness : Staleness Value) (cache : Cache Value) (now : Nat) : Bool :=
  staleness.stale cache.value (now - cache.renewedAt)

/-- One use: the cache behind it, whether a new value was asked for, and what the user
of the cache gets. -/
def Staleness.use (staleness : Staleness Value) (cache : Cache Value) (now : Nat)
    (outcome : Except Error Value) (renewedAt : Nat) :
    Cache Value × Bool × Except Error Value :=
  if staleness.due cache now then
    match outcome with
    | .ok value => (⟨value, renewedAt⟩, true, .ok value)
    | .error reason => (cache, true, .error reason)
  else (cache, false, .ok cache.value)

theorem use_due (staleness : Staleness Value) (cache : Cache Value) (now : Nat)
    (outcome : Except Error Value) (renewedAt : Nat) (due : staleness.due cache now = true) :
    staleness.use cache now outcome renewedAt =
      match outcome with
      | .ok value => (⟨value, renewedAt⟩, true, .ok value)
      | .error reason => (cache, true, .error reason) := if_pos due

theorem use_fresh (staleness : Staleness Value) (cache : Cache Value) (now : Nat)
    (outcome : Except Error Value) (renewedAt : Nat) (fresh : ¬ staleness.due cache now = true) :
    staleness.use cache now outcome renewedAt = (cache, false, .ok cache.value) := if_neg fresh

structure Client (State : Type u) (Input : Type v) (Value Error Answer : Type w) where
  call : State → Input → State × Bool × Except Error Answer
  cache : State → Cache Value
  answer : Value → Answer
  calledAt : Input → Nat
  renewedAt : Input → Nat

structure Watched (State : Type u) where
  state : State
  succeeded : Bool
  attemptedAt : Nat
  now : Nat

section Watching

variable (client : Client State Input Value Error Answer) (staleness : Staleness Value)

def Client.InTime (watched : Watched State) (input : Input) : Prop :=
  watched.now ≤ client.calledAt input ∧ client.calledAt input ≤ client.renewedAt input

def succeeds (result : Except Error Answer) : Bool :=
  match result with
  | .ok _ => true
  | .error _ => false

def Client.observe (watched : Watched State) (input : Input) : Watched State :=
  let called := client.call watched.state input
  { state := called.1
    succeeded := if called.2.1 then succeeds called.2.2 else watched.succeeded
    attemptedAt := if called.2.1 then client.renewedAt input else watched.attemptedAt
    now := client.renewedAt input }

instance (watched : Watched State) (input : Input) : Decidable (client.InTime watched input) :=
  inferInstanceAs (Decidable (_ ∧ _))

def Client.watch : Machine (Watched State) Input (Except Error Answer) where
  step watched input :=
    if client.InTime watched input then
      some (client.observe watched input, [(client.call watched.state input).2.2])
    else none

/-- A failed call leaves the cache as it was; a call that asks for nothing comes behind
a renewal that succeeded and is not stale yet. -/
def Client.Obeys (watched : Watched State) (input : Input) : Prop :=
  (∀ reason, (client.call watched.state input).2.2 = .error reason →
    client.cache (client.call watched.state input).1 = client.cache watched.state) ∧
  ((client.call watched.state input).2.1 = false → watched.succeeded = true ∧
    staleness.stale (client.cache watched.state).value
      (client.calledAt input - watched.attemptedAt) = false)

def Client.Refines (state : State) (input : Input) : Prop :=
  ∃ (outcome : Except Error Value) (used : Cache Value × Bool × Except Error Value),
    staleness.use (client.cache state) (client.calledAt input) outcome
        (client.renewedAt input) = used ∧
      client.cache (client.call state input).1 = used.1 ∧
      (client.call state input).2.1 = used.2.1 ∧
      (client.call state input).2.2 = used.2.2.map client.answer

/-- The remembered renewal is the one in the cache, or it failed and the value is stale. -/
def Client.Settled (watched : Watched State) : Prop :=
  (watched.succeeded = true ∧ watched.attemptedAt = (client.cache watched.state).renewedAt) ∨
    (watched.succeeded = false ∧
      staleness.due (client.cache watched.state) watched.now = true)

theorem due_later (cache : Cache Value) (now later : Nat) (order : now ≤ later)
    (due : staleness.due cache now = true) : staleness.due cache later = true :=
  staleness.grows cache.value _ _ (Nat.sub_le_sub_right order _) due

theorem refines_cases (state : State) (input : Input)
    (refines : client.Refines staleness state input) :
    (staleness.due (client.cache state) (client.calledAt input) = true ∧
      (client.call state input).2.1 = true ∧
      ((∃ value, client.cache (client.call state input).1 = ⟨value, client.renewedAt input⟩ ∧
          (client.call state input).2.2 = .ok (client.answer value)) ∨
        ∃ reason, client.cache (client.call state input).1 = client.cache state ∧
          (client.call state input).2.2 = .error reason)) ∨
    (¬ staleness.due (client.cache state) (client.calledAt input) = true ∧
      (client.call state input).2.1 = false ∧
      client.cache (client.call state input).1 = client.cache state ∧
      (client.call state input).2.2 = .ok (client.answer (client.cache state).value)) := by
  obtain ⟨outcome, _, rfl, cached, asked, result⟩ := refines
  by_cases due : staleness.due (client.cache state) (client.calledAt input) = true
  · rw [use_due _ _ _ _ _ due] at cached asked result
    cases outcome with
    | ok value => exact Or.inl ⟨due, asked, Or.inl ⟨value, cached, result⟩⟩
    | error reason => exact Or.inl ⟨due, asked, Or.inr ⟨reason, cached, result⟩⟩
  · rw [use_fresh _ _ _ _ _ due] at cached asked result
    exact Or.inr ⟨due, asked, cached, result⟩

theorem obeys_of_refines (watched : Watched State) (input : Input)
    (settled : client.Settled staleness watched) (timed : client.InTime watched input)
    (refines : client.Refines staleness watched.state input) :
    client.Obeys staleness watched input := by
  rcases refines_cases client staleness watched.state input refines with
    ⟨-, asked, ⟨value, -, result⟩ | ⟨fault, cached, -⟩⟩ | ⟨fresh, -, -, result⟩
  · refine ⟨fun reason failed => ?_, fun silent => ?_⟩
    · rw [result] at failed
      cases failed
    · rw [asked] at silent
      cases silent
  · refine ⟨fun _ _ => cached, fun silent => ?_⟩
    rw [asked] at silent
    cases silent
  · refine ⟨fun reason failed => ?_, fun _ => ?_⟩
    · rw [result] at failed
      cases failed
    · rcases settled with ⟨success, same⟩ | ⟨-, stale⟩
      · exact ⟨success, by simpa [Staleness.due, same] using fresh⟩
      · exact absurd (due_later staleness _ _ _ timed.1 stale) fresh

theorem settled_of_refines (watched : Watched State) (input : Input)
    (settled : client.Settled staleness watched) (timed : client.InTime watched input)
    (refines : client.Refines staleness watched.state input) :
    client.Settled staleness (client.observe watched input) := by
  rcases refines_cases client staleness watched.state input refines with
    ⟨due, asked, ⟨value, cached, result⟩ | ⟨fault, cached, result⟩⟩ | ⟨fresh, asked, cached, -⟩
  · refine Or.inl ⟨?_, ?_⟩
    · simp only [Client.observe, asked, result, if_true]
      rfl
    · simp only [Client.observe, asked, cached, if_true]
  · refine Or.inr ⟨?_, ?_⟩
    · simp only [Client.observe, asked, result, if_true]
      rfl
    · simp only [Client.observe, cached]
      exact due_later staleness _ _ _ timed.2 due
  · rcases settled with ⟨success, same⟩ | ⟨-, stale⟩
    · refine Or.inl ⟨?_, ?_⟩
      · simp only [Client.observe, asked, Bool.false_eq_true, if_false, success]
      · simp only [Client.observe, asked, cached, Bool.false_eq_true, if_false, same]
    · exact absurd (due_later staleness _ _ _ timed.1 stale) fresh

theorem watch_step_iff (watched next : Watched State) (input : Input)
    (emitted : List (Except Error Answer)) :
    client.watch.step watched input = some (next, emitted) ↔
      client.InTime watched input ∧ client.observe watched input = next ∧
        [(client.call watched.state input).2.2] = emitted := by
  simp only [Client.watch, Option.ite_none_right_eq_some, Option.some.injEq, Prod.mk.injEq]

theorem watch_enabled_iff (watched : Watched State) (input : Input) :
    (client.watch.step watched input).isSome ↔ client.InTime watched input :=
  Option.isSome_ite

theorem always_obeys (start : Watched State) (inputs : List Input)
    (settled : client.Settled staleness start)
    (refines : Always client.watch start inputs fun watched input =>
      client.Refines staleness watched.state input) :
    Always client.watch start inputs (client.Obeys staleness) := by
  intro past input later watched log split ran enabled
  have kept : client.Settled staleness watched := by
    refine run_history client.watch start inputs (fun _ state _ => client.Settled staleness state)
      settled ?_ past ⟨input :: later, split.symm⟩ watched log ran
    intro before taken state seen next emitted began reached holds stepped
    obtain ⟨rest, whole⟩ := began
    have call := refines before taken rest state seen (by simpa using whole.symm) reached
      (by rw [stepped]; rfl)
    obtain ⟨order, rfl, -⟩ := (watch_step_iff client state next taken emitted).mp stepped
    exact settled_of_refines client staleness state taken holds order call
  exact obeys_of_refines client staleness watched input kept
    ((watch_enabled_iff client watched input).mp enabled)
    (refines past input later watched log split ran enabled)

end Watching

end Toolkit.Refresh
