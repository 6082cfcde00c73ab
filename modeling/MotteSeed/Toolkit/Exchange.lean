import MotteSeed.Toolkit.Runs

/-! A request repeated over a first-in first-out queue of datagrams. Every attempt
sends the request under an identifier of its own and then takes one datagram, unless
its time is up while the queue is empty. A datagram that cannot be read ends the
exchange; a reply that does not match costs the attempt. -/
namespace Toolkit.Exchange
open Runs

universe u
variable {Id Datagram Reply Value Error : Type u}

structure Protocol (Id Datagram Reply Value Error : Type u) where
  attempts : Nat
  request : Nat → Id → Datagram
  receive : Datagram → Except Error Reply
  matched : Id → Reply → Bool
  value : Reply → Value
  exhausted : Error

inductive Phase (Value Error : Type u) where
  | sending (attempt : Nat)
  | waiting (attempt : Nat)
  | returned (result : Except Error Value)

structure State (Datagram Value Error : Type u) where
  queue : List Datagram
  phase : Phase Value Error

inductive Event (Datagram : Type u) where
  | arrive (datagram : Datagram)
  | send
  | read
  | expire

def Protocol.start (protocol : Protocol Id Datagram Reply Value Error) (attempt : Nat) :
    Phase Value Error :=
  if attempt < protocol.attempts then .sending attempt
  else .returned (.error protocol.exhausted)

def Protocol.judge (protocol : Protocol Id Datagram Reply Value Error) (attempt : Nat) (id : Id)
    (datagram : Datagram) : Phase Value Error :=
  match protocol.receive datagram with
  | .error fault => .returned (.error fault)
  | .ok reply =>
      if protocol.matched id reply then .returned (.ok (protocol.value reply))
      else protocol.start (attempt + 1)

def Protocol.step (protocol : Protocol Id Datagram Reply Value Error) (ids : Nat → Id) :
    State Datagram Value Error → Event Datagram →
      Option (State Datagram Value Error × List Datagram)
  | ⟨queue, phase⟩, .arrive datagram => some (⟨queue ++ [datagram], phase⟩, [])
  | ⟨queue, .sending attempt⟩, .send =>
      some (⟨queue, .waiting attempt⟩, [protocol.request attempt (ids attempt)])
  | ⟨datagram :: rest, .waiting attempt⟩, .read =>
      some (⟨rest, protocol.judge attempt (ids attempt) datagram⟩, [])
  | ⟨[], .waiting attempt⟩, .expire => some (⟨[], protocol.start (attempt + 1)⟩, [])
  | _, _ => none

def Protocol.machine (protocol : Protocol Id Datagram Reply Value Error) (ids : Nat → Id) :
    Machine (State Datagram Value Error) (Event Datagram) Datagram :=
  ⟨protocol.step ids⟩

def Protocol.initial (protocol : Protocol Id Datagram Reply Value Error)
    (queue : List Datagram) : State Datagram Value Error :=
  ⟨queue, protocol.start 0⟩

def Protocol.sent (protocol : Protocol Id Datagram Reply Value Error) (ids : Nat → Id)
    (count : Nat) : List Datagram :=
  (List.range count).map fun attempt => protocol.request attempt (ids attempt)

section Steps

variable (protocol : Protocol Id Datagram Reply Value Error) (ids : Nat → Id)

theorem sent_succ (count : Nat) : protocol.sent ids (count + 1) =
    protocol.sent ids count ++ [protocol.request count (ids count)] := by
  rw [Protocol.sent, List.range_succ, List.map_append]
  rfl

theorem start_cases (attempt : Nat) :
    (attempt < protocol.attempts ∧ protocol.start attempt = .sending attempt) ∨
      (protocol.attempts ≤ attempt ∧
        protocol.start attempt = .returned (.error protocol.exhausted)) := by
  by_cases more : attempt < protocol.attempts
  · exact Or.inl ⟨more, if_pos more⟩
  · exact Or.inr ⟨Nat.le_of_not_lt more, if_neg more⟩

theorem judge_cases (attempt : Nat) (id : Id) (datagram : Datagram) :
    (∃ fault, protocol.receive datagram = .error fault ∧
      protocol.judge attempt id datagram = .returned (.error fault)) ∨
    (∃ reply, protocol.receive datagram = .ok reply ∧ protocol.matched id reply = true ∧
      protocol.judge attempt id datagram = .returned (.ok (protocol.value reply))) ∨
    (∃ reply, protocol.receive datagram = .ok reply ∧ protocol.matched id reply = false ∧
      protocol.judge attempt id datagram = protocol.start (attempt + 1)) := by
  unfold Protocol.judge
  cases received : protocol.receive datagram with
  | error fault => exact Or.inl ⟨fault, rfl, rfl⟩
  | ok reply =>
      cases fits : protocol.matched id reply with
      | true => exact Or.inr (Or.inl ⟨reply, rfl, fits, if_pos fits⟩)
      | false => exact Or.inr (Or.inr ⟨reply, rfl, fits, if_neg (by simp [fits])⟩)

theorem step_cases (state next : State Datagram Value Error) (event : Event Datagram)
    (log : List Datagram) (stepped : (protocol.machine ids).step state event = some (next, log)) :
    (∃ datagram, event = .arrive datagram ∧ log = [] ∧
      next = ⟨state.queue ++ [datagram], state.phase⟩) ∨
    (∃ attempt, event = .send ∧ state.phase = .sending attempt ∧
      log = [protocol.request attempt (ids attempt)] ∧
      next = ⟨state.queue, .waiting attempt⟩) ∨
    (∃ attempt datagram rest, event = .read ∧ state = ⟨datagram :: rest, .waiting attempt⟩ ∧
      log = [] ∧ next = ⟨rest, protocol.judge attempt (ids attempt) datagram⟩) ∨
    (∃ attempt, event = .expire ∧ state = ⟨[], .waiting attempt⟩ ∧ log = [] ∧
      next = ⟨[], protocol.start (attempt + 1)⟩) := by
  obtain ⟨queue, phase⟩ := state
  change protocol.step ids ⟨queue, phase⟩ event = some (next, log) at stepped
  cases event with
  | arrive datagram =>
      obtain ⟨rfl, rfl⟩ := by simpa [Protocol.step] using stepped
      exact Or.inl ⟨datagram, rfl, rfl, rfl⟩
  | send =>
      cases phase with
      | sending attempt =>
          obtain ⟨rfl, rfl⟩ := by simpa [Protocol.step] using stepped
          exact Or.inr (Or.inl ⟨attempt, rfl, rfl, rfl, rfl⟩)
      | waiting | returned => simp [Protocol.step] at stepped
  | read =>
      cases phase with
      | waiting attempt =>
          cases queue with
          | nil => simp [Protocol.step] at stepped
          | cons datagram rest =>
              obtain ⟨rfl, rfl⟩ := by simpa [Protocol.step] using stepped
              exact Or.inr (Or.inr (Or.inl ⟨attempt, datagram, rest, rfl, rfl, rfl, rfl⟩))
      | sending | returned => simp [Protocol.step] at stepped
  | expire =>
      cases phase with
      | waiting attempt =>
          cases queue with
          | nil =>
              obtain ⟨rfl, rfl⟩ := by simpa [Protocol.step] using stepped
              exact Or.inr (Or.inr (Or.inr ⟨attempt, rfl, rfl, rfl, rfl⟩))
          | cons => simp [Protocol.step] at stepped
      | sending | returned => simp [Protocol.step] at stepped

end Steps

section Runs

variable (protocol : Protocol Id Datagram Reply Value Error) (ids : Nat → Id)

def Accounted (phase : Phase Value Error) (log : List Datagram) : Prop :=
  match phase with
  | .sending attempt => attempt < protocol.attempts ∧ log = protocol.sent ids attempt
  | .waiting attempt => attempt < protocol.attempts ∧ log = protocol.sent ids (attempt + 1)
  | .returned _ => ∃ count ≤ protocol.attempts, log = protocol.sent ids count

theorem start_accounted (attempt : Nat) (log : List Datagram)
    (bound : attempt ≤ protocol.attempts) (same : log = protocol.sent ids attempt) :
    Accounted protocol ids (protocol.start attempt) log := by
  rcases start_cases protocol attempt with ⟨more, begins⟩ | ⟨_, ends⟩
  · rw [begins]
    exact ⟨more, same⟩
  · rw [ends]
    exact ⟨attempt, bound, same⟩

theorem step_accounted (state next : State Datagram Value Error) (event : Event Datagram)
    (log emitted : List Datagram) (holds : Accounted protocol ids state.phase log)
    (stepped : (protocol.machine ids).step state event = some (next, emitted)) :
    Accounted protocol ids next.phase (log ++ emitted) := by
  rcases step_cases protocol ids state next event emitted stepped with
    ⟨datagram, rfl, rfl, rfl⟩ | ⟨attempt, rfl, phase, rfl, rfl⟩ |
      ⟨attempt, datagram, rest, rfl, rfl, rfl, rfl⟩ | ⟨attempt, rfl, rfl, rfl, rfl⟩
  · rw [List.append_nil]
    exact holds
  · rw [phase] at holds
    exact ⟨holds.1, by rw [holds.2, sent_succ]⟩
  · rw [List.append_nil]
    rcases judge_cases protocol attempt (ids attempt) datagram with
      ⟨fault, -, ends⟩ | ⟨reply, -, -, ends⟩ | ⟨reply, -, -, again⟩
    · exact ends ▸ ⟨attempt + 1, holds.1, holds.2⟩
    · exact ends ▸ ⟨attempt + 1, holds.1, holds.2⟩
    · exact again ▸ start_accounted protocol ids (attempt + 1) log holds.1 holds.2
  · rw [List.append_nil]
    exact start_accounted protocol ids (attempt + 1) log holds.1 holds.2

theorem run_accounted (queue : List Datagram) (finish : State Datagram Value Error)
    (events : List (Event Datagram)) (log : List Datagram)
    (ran : run (protocol.machine ids) (protocol.initial queue) events = some (finish, log)) :
    Accounted protocol ids finish.phase log :=
  run_invariant (protocol.machine ids)
    (fun state sent => Accounted protocol ids state.phase sent)
    (fun state sent event next emitted => step_accounted protocol ids state next event sent emitted)
    (protocol.initial queue) finish events log
    (start_accounted protocol ids 0 [] (Nat.zero_le _) rfl) ran

/-- A value that is returned comes from a matching reply that was read while its
attempt was the current one: its request is the last that had been sent. -/
def Sound : Prop :=
  ∀ queue finish events log value,
    run (protocol.machine ids) (protocol.initial queue) events = some (finish, log) →
    finish.phase = .returned (.ok value) →
    ∃ past later attempt datagram rest reply, events = past ++ .read :: later ∧
      run (protocol.machine ids) (protocol.initial queue) past =
        some (⟨datagram :: rest, .waiting attempt⟩, protocol.sent ids (attempt + 1)) ∧
      attempt < protocol.attempts ∧ protocol.receive datagram = .ok reply ∧
      protocol.matched (ids attempt) reply = true ∧ value = protocol.value reply

theorem start_not_ok (attempt : Nat) (value : Value) :
    protocol.start attempt ≠ .returned (.ok value) := by
  intro same
  rcases start_cases protocol attempt with ⟨_, begins⟩ | ⟨_, ends⟩
  · rw [begins] at same
    cases same
  · rw [ends] at same
    cases same

theorem sound : Sound protocol ids := by
  intro queue finish events log value ran returned
  refine run_history (protocol.machine ids) (protocol.initial queue) events
    (fun history state _ => state.phase = .returned (.ok value) →
      ∃ past later attempt datagram rest reply, history = past ++ .read :: later ∧
        run (protocol.machine ids) (protocol.initial queue) past =
          some (⟨datagram :: rest, .waiting attempt⟩, protocol.sent ids (attempt + 1)) ∧
        attempt < protocol.attempts ∧ protocol.receive datagram = .ok reply ∧
        protocol.matched (ids attempt) reply = true ∧ value = protocol.value reply)
    ?_ ?_ events (List.prefix_refl events) finish log ran returned
  · exact fun same => absurd same (start_not_ok protocol 0 value)
  · intro history event state log next emitted _ ran holds stepped returned
    rcases step_cases protocol ids state next event emitted stepped with
      ⟨datagram, rfl, -, rfl⟩ | ⟨attempt, rfl, -, -, rfl⟩ |
        ⟨attempt, datagram, rest, rfl, rfl, -, rfl⟩ | ⟨attempt, rfl, -, -, rfl⟩
    -- Only a read returns a value; behind it datagrams may arrive.
    · obtain ⟨past, later, attempt, found, rest, reply, rfl, facts⟩ := holds returned
      exact ⟨past, later ++ [.arrive datagram], attempt, found, rest, reply, by simp, facts⟩
    · cases returned
    · obtain ⟨bound, sent⟩ := run_accounted protocol ids queue _ history log ran
      rcases judge_cases protocol attempt (ids attempt) datagram with
        ⟨fault, -, ends⟩ | ⟨reply, received, fits, ends⟩ | ⟨reply, -, -, again⟩
      · rw [ends] at returned
        cases returned
      · rw [ends] at returned
        cases returned
        exact ⟨history, [], attempt, datagram, rest, reply, rfl, by rw [ran, sent], bound,
          received, fits, rfl⟩
      · exact absurd (again.symm.trans returned) (start_not_ok protocol _ value)
    · exact absurd returned (start_not_ok protocol _ value)

def InFront (attempt : Nat) (datagram : Datagram) (rest : List Datagram) (value : Value)
    (past : List (Event Datagram)) (state : State Datagram Value Error) : Prop :=
  state.phase = .returned (.ok value) ∨
    ((∃ more, state = ⟨datagram :: (rest ++ more), .waiting attempt⟩) ∧
      ∀ event ∈ past, ∃ other, event = Event.arrive other)

theorem step_in_front (attempt : Nat) (datagram : Datagram) (rest : List Datagram)
    (value : Value)
    (judged : protocol.judge attempt (ids attempt) datagram = .returned (.ok value))
    (past : List (Event Datagram)) (state next : State Datagram Value Error)
    (event : Event Datagram) (emitted : List Datagram)
    (holds : InFront attempt datagram rest value past state)
    (stepped : (protocol.machine ids).step state event = some (next, emitted)) :
    InFront attempt datagram rest value (past ++ [event]) next := by
  rcases step_cases protocol ids state next event emitted stepped with
    ⟨other, rfl, -, rfl⟩ | ⟨turn, rfl, phase, -, rfl⟩ |
      ⟨turn, head, tail, rfl, rfl, -, rfl⟩ | ⟨turn, rfl, rfl, -, rfl⟩
  · rcases holds with returned | ⟨⟨more, rfl⟩, arrivals⟩
    · exact Or.inl returned
    · refine Or.inr ⟨⟨more ++ [other], by simp⟩, fun event member => ?_⟩
      rcases List.mem_append.mp member with old | new
      · exact arrivals event old
      · exact ⟨other, List.mem_singleton.mp new⟩
  · rcases holds with returned | ⟨⟨more, rfl⟩, -⟩
    · rw [phase] at returned
      cases returned
    · cases phase
  · rcases holds with returned | ⟨⟨more, same⟩, -⟩
    · cases returned
    · cases same
      exact Or.inl judged
  · rcases holds with returned | ⟨⟨more, same⟩, -⟩
    · cases returned
    · cases same

/-- The matching reply of the current attempt is returned if the queue begins with it:
until the read nothing but arrivals can happen, and the read returns its value. -/
theorem first_reply_returned (attempt : Nat) (datagram : Datagram) (rest : List Datagram)
    (reply : Reply) (received : protocol.receive datagram = .ok reply)
    (fits : protocol.matched (ids attempt) reply = true) :
    (protocol.machine ids).step ⟨datagram :: rest, .waiting attempt⟩ .read =
        some (⟨rest, .returned (.ok (protocol.value reply))⟩, []) ∧
      ∀ future finish log, run (protocol.machine ids) ⟨datagram :: rest, .waiting attempt⟩ future =
          some (finish, log) →
        finish.phase = .returned (.ok (protocol.value reply)) ∨
          (finish.phase = .waiting attempt ∧
            ∀ event ∈ future, ∃ other, event = Event.arrive other) := by
  have judged : protocol.judge attempt (ids attempt) datagram =
      .returned (.ok (protocol.value reply)) := by
    simp only [Protocol.judge, received, if_pos fits]
  refine ⟨by rw [← judged]; rfl, fun future finish log ran => ?_⟩
  have initial : InFront attempt datagram rest (protocol.value reply) []
      (⟨datagram :: rest, .waiting attempt⟩ : State Datagram Value Error) :=
    Or.inr ⟨⟨[], by rw [List.append_nil]⟩, fun _ none => by cases none⟩
  have kept := run_history (protocol.machine ids) _ future
    (fun past state _ => InFront attempt datagram rest (protocol.value reply) past state) initial
    (fun past event state _ next emitted _ _ holds stepped =>
      step_in_front protocol ids attempt datagram rest _ judged past state next event emitted
        holds stepped)
    future (List.prefix_refl future) finish log ran
  rcases kept with returned | ⟨⟨more, rfl⟩, arrivals⟩
  · exact Or.inl returned
  · exact Or.inr ⟨rfl, arrivals⟩

theorem other_reply_skipped (attempt : Nat) (datagram : Datagram) (rest : List Datagram)
    (reply : Reply) (received : protocol.receive datagram = .ok reply)
    (other : protocol.matched (ids attempt) reply = false) :
    (protocol.machine ids).step ⟨datagram :: rest, .waiting attempt⟩ .read =
      some (⟨rest, protocol.start (attempt + 1)⟩, []) := by
  have judged : protocol.judge attempt (ids attempt) datagram = protocol.start (attempt + 1) := by
    simp only [Protocol.judge, received, other]
    rfl
  rw [← judged]
  rfl

def lost (count : Nat) : List (Event Datagram) :=
  (List.replicate count [.send, .expire]).flatten

theorem run_lost (attempt count : Nat) (room : attempt + count < protocol.attempts) :
    ∃ sent, run (protocol.machine ids) ⟨[], .sending attempt⟩ (lost count) =
      some (⟨[], .sending (attempt + count)⟩, sent) := by
  induction count generalizing attempt with
  | zero => exact ⟨[], rfl⟩
  | succ count ih =>
      obtain ⟨sent, ran⟩ := ih (attempt + 1) (by omega)
      rw [show attempt + 1 + count = attempt + (count + 1) by omega] at ran
      have again : protocol.start (attempt + 1) = .sending (attempt + 1) := if_pos (by omega)
      have expires : (protocol.machine ids).step ⟨[], .waiting attempt⟩ .expire =
          some (⟨[], .sending (attempt + 1)⟩, []) := by
        rw [← again]
        rfl
      exact ⟨_, (run_cons_iff _ _ _ _ _ _).mpr ⟨_, _, _, rfl,
        (run_cons_iff _ _ _ _ _ _).mpr ⟨_, [], sent, expires, ran, rfl⟩, rfl⟩⟩

theorem lost_own (count : Nat) (event : Event Datagram) (member : event ∈ lost count)
    (datagram : Datagram) : event ≠ .arrive datagram := by
  rintro rfl
  obtain ⟨attempt, same, inside⟩ := List.mem_flatten.mp member
  obtain rfl := List.eq_of_mem_replicate same
  simp at inside

theorem run_lost_sent (count : Nat) (room : count < protocol.attempts) :
    ∃ sent, run (protocol.machine ids) (protocol.initial []) (lost count ++ [.send]) =
        some (⟨[], .waiting count⟩, sent) ∧ protocol.request count (ids count) ∈ sent := by
  obtain ⟨sent, ran⟩ := run_lost protocol ids 0 count (by omega)
  have begins : protocol.initial [] = ⟨[], .sending 0⟩ :=
    congrArg (State.mk []) (if_pos (by omega))
  rw [Nat.zero_add, ← begins] at ran
  exact ⟨_, (run_snoc_iff _ _ _ _ _ _).mpr ⟨_, sent, _, ran, rfl, rfl⟩,
    List.mem_append_right sent List.mem_cons_self⟩

end Runs

end Toolkit.Exchange
