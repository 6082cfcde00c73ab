import MotteSeed.PeerConnection

/-! The bytes a connection writes after the handshake. A send appends to the
shared buffer and writes all of it, and nothing empties the buffer between two
sends: a length prefix replaces its content by a body, and a parsed message
leaves at least its header behind. -/
namespace MotteSeed.OutboundStream
open Toolkit Toolkit.Checked Toolkit.Runs PeerWire PeerConnection

def sentBytes : Effect → Bytes
  | .sent bytes => bytes
  | _ => []

def written (effects : List Effect) : Bytes := effects.flatMap sentBytes

def sentMessage : Turn → Option Message
  | .command command => commandMessage command
  | _ => none

def handled (bitfield : Option Bytes) (turns : List Turn) : List Message :=
  (bitfield.map Message.bitfield).toList ++ turns.filterMap sentMessage

/-- What the stream should carry: every handled message, serialized once. -/
def expected (bitfield : Option Bytes) (turns : List Turn) : Bytes :=
  (handled bitfield turns).flatMap Message.serialize

/-- Every command of the run that sends a message finds the buffer empty. The
bitfield, sent before the loop, always does. -/
def FreshSends (profile : Profile) (bitfield : Option Bytes) (turns : List Turn) : Prop :=
  ∀ past next conn log, past ++ [next] <+: turns → sentMessage next ≠ none →
    runFrom profile bitfield past = some (conn, log) → conn.outcome = none → conn.buf = []

@[simp] theorem written_nil : written [] = [] := rfl

theorem written_append (first second : List Effect) :
    written (first ++ second) = written first ++ written second := by
  simp [written]

theorem finish_read_written (profile : Profile) (conn finish : Connection)
    (effects : List Effect) (ended : finishRead profile conn = (finish, effects)) :
    written effects = [] := by
  unfold finishRead at ended
  split at ended <;> obtain ⟨-, rfl⟩ := Prod.mk.inj ended <;> simp [written, sentBytes]

theorem serialize_nonempty (message : Message) : message.serialize ≠ [] := by
  cases message <;> simp [Message.serialize, Message.serializeInto, putU32, putU8, putU16,
    putSlice, BigEndian.encode]

theorem turn_written (profile : Profile) (conn after : Connection) (next : Turn)
    (effects : List Effect) (turned : turn profile conn next = some (after, effects)) :
    written effects =
      match sentMessage next with
      | some message => conn.buf ++ message.serialize
      | none => [] := by
  obtain ⟨-, path⟩ := turn_turned profile conn after next effects turned
  cases path with
  | arrive | inPrefix | opened | inBody | commandsClosed | fails => rfl
  | emptyBody _ _ _ _ _ _ _ _ ended => exact finish_read_written profile _ _ _ ended
  | finished _ _ _ _ _ _ _ _ ended => exact finish_read_written profile _ _ _ ended
  | command command after effects ran =>
      unfold handleManagerCommand at ran
      cases asked : commandMessage command with
      | none =>
          simp only [asked] at ran
          obtain ⟨-, rfl⟩ := Prod.mk.inj ran
          simp [sentMessage, asked]
      -- The send writes all of the buffer, so what was in it goes out again.
      | some message =>
          simp only [asked, sendMessage] at ran
          obtain ⟨-, rfl⟩ := Prod.mk.inj ran
          simp [sentMessage, asked, written, sentBytes, serialize_into_append]

/-- The buffer of a live connection still holds bytes that a send would repeat. -/
def Dirty (conn : Connection) : Prop := conn.outcome = none → conn.buf ≠ []

theorem finish_read_dirty (profile : Profile) (conn finish : Connection)
    (effects : List Effect) (ended : finishRead profile conn = (finish, effects)) :
    Dirty finish := by
  unfold finishRead at ended
  split at ended <;> obtain ⟨rfl, -⟩ := Prod.mk.inj ended <;> intro live
  · rename_i message left parsed
    exact deserialize_leaves profile conn.buf left message parsed
  · cases live

theorem turn_dirty (profile : Profile) (conn after : Connection) (next : Turn)
    (effects : List Effect) (dirty : Dirty conn ∨ sentMessage next ≠ none)
    (turned : turn profile conn next = some (after, effects)) : Dirty after := by
  obtain ⟨live, path⟩ := turn_turned profile conn after next effects turned
  cases path with
  | arrive | inPrefix | commandsClosed | fails =>
      rcases dirty with dirty | sends
      · intro _
        exact dirty live
      · exact absurd rfl sends
  | opened _ _ _ _ _ _ _ more => exact fun _ => more
  | emptyBody _ _ _ _ _ _ _ _ ended => exact finish_read_dirty profile _ _ _ ended
  | finished _ _ _ _ _ _ _ _ ended => exact finish_read_dirty profile _ _ _ ended
  -- A read in its body is short of the buffer's end, so the buffer is not empty.
  | inBody count stale received there here short =>
      intro _ empty
      have length := congrArg List.length empty
      rw [ByteImage.overwrite_length _ _ _ (by
        rw [List.length_take_of_le there]; omega), List.length_nil] at length
      omega
  | command command after effects ran =>
      unfold handleManagerCommand at ran
      cases asked : commandMessage command with
      | none =>
          simp only [asked] at ran
          obtain ⟨rfl, -⟩ := Prod.mk.inj ran
          rcases dirty with dirty | sends
          · exact fun _ => dirty live
          · simp [sentMessage, asked] at sends
      | some message =>
          simp only [asked, sendMessage] at ran
          obtain ⟨rfl, -⟩ := Prod.mk.inj ran
          intro _ empty
          rw [serialize_into_append] at empty
          exact serialize_nonempty message (List.append_eq_nil_iff.mp empty).2

theorem fresh_sends_snoc (profile : Profile) (bitfield : Option Bytes) (past : List Turn)
    (next : Turn) (conn : Connection) (log : List Effect) (live : conn.outcome = none)
    (ran : runFrom profile bitfield past = some (conn, log)) :
    FreshSends profile bitfield (past ++ [next]) ↔
      FreshSends profile bitfield past ∧ (sentMessage next ≠ none → conn.buf = []) := by
  constructor
  · intro fresh
    refine ⟨fun earlier turn other seen began => ?_, fun sends => ?_⟩
    · exact fresh earlier turn other seen (began.trans (List.prefix_append past [next]))
    · exact fresh past next conn log (List.prefix_refl _) sends ran live
  · rintro ⟨fresh, last⟩ earlier turn other seen began sends reached going
    rcases List.prefix_concat_iff.mp began with whole | inside
    · obtain ⟨rfl, rfl⟩ := by simpa using List.append_inj' whole rfl
      obtain ⟨rfl, -⟩ := by simpa using ran.symm.trans reached
      exact last sends
    · exact fresh earlier turn other seen inside sends reached going

theorem expected_snoc (bitfield : Option Bytes) (past : List Turn) (next : Turn) :
    expected bitfield (past ++ [next]) = expected bitfield past ++
      match sentMessage next with
      | some message => message.serialize
      | none => [] := by
  cases sends : sentMessage next with
  | none => simp [expected, handled, List.filterMap_cons_none sends]
  | some message => simp [expected, handled, List.filterMap_cons_some sends]

/-- The stream never carries less than it should, and exactly what it should
as long as every send was fresh. -/
def OnlyExcess (profile : Profile) (bitfield : Option Bytes) (past : List Turn)
    (log : List Effect) : Prop :=
  (expected bitfield past).length ≤ (written log).length ∧
    (written log = expected bitfield past ↔ FreshSends profile bitfield past)

theorem only_excess_snoc (profile : Profile) (bitfield : Option Bytes) (past : List Turn)
    (next : Turn) (conn after : Connection) (log effects : List Effect)
    (ran : runFrom profile bitfield past = some (conn, log))
    (holds : OnlyExcess profile bitfield past log)
    (turned : turn profile conn next = some (after, effects)) :
    OnlyExcess profile bitfield (past ++ [next]) (log ++ effects) := by
  obtain ⟨shorter, exact⟩ := holds
  have live := (turn_turned profile conn after next effects turned).1
  unfold OnlyExcess
  rw [written_append, turn_written profile conn after next effects turned, expected_snoc,
    fresh_sends_snoc profile bitfield past next conn log live ran, ← exact]
  cases sends : sentMessage next with
  | none => simp [shorter]
  | some message =>
      simp only [ne_eq, reduceCtorEq, not_false_eq_true, true_implies, List.length_append,
        ← List.append_assoc, List.append_cancel_right_eq]
      refine ⟨by omega, ?_, ?_⟩
      -- The stream was long enough before, so the buffer has added nothing to it.
      · intro same
        have lengths := congrArg List.length same
        rw [List.length_append] at lengths
        have empty : conn.buf = [] := List.length_eq_zero_iff.mp (by omega)
        exact ⟨by simpa [empty] using same, empty⟩
      · rintro ⟨same, empty⟩
        simpa [empty] using same

theorem run_only_excess (profile : Profile) (bitfield : Option Bytes) (turns : List Turn)
    (finish : Connection) (log : List Effect)
    (ran : runFrom profile bitfield turns = some (finish, log)) :
    OnlyExcess profile bitfield turns log := by
  refine run_from_history profile bitfield turns
    (fun past _ log => OnlyExcess profile bitfield past log) ?_
    (fun past next conn log after effects _ ran holds turned =>
      only_excess_snoc profile bitfield past next conn after log effects ran holds turned)
    turns (List.prefix_refl turns) finish log ran
  have trivially : FreshSends profile bitfield [] := by
    intro past next conn log began
    simp at began
  cases bitfield with
  | none => simpa [OnlyExcess, expected, handled, sendBitfield] using trivially
  | some bitfield =>
      simpa [OnlyExcess, expected, handled, sendBitfield, sendMessage, Connection.new,
        written, sentBytes, Message.serialize] using trivially

theorem fresh_sends_once (profile : Profile) (bitfield : Option Bytes) (turns : List Turn)
    (finish : Connection) (log : List Effect)
    (ran : runFrom profile bitfield turns = some (finish, log))
    (fresh : FreshSends profile bitfield turns) : (handled bitfield turns).length ≤ 1 := by
  -- Once something was sent the buffer stays dirty, so the next send is not fresh.
  have counted : (handled bitfield turns).length ≤ 1 ∧
      ((handled bitfield turns).length = 1 → Dirty finish) := by
    refine run_from_history profile bitfield turns
      (fun past conn _ => (handled bitfield past).length ≤ 1 ∧
        ((handled bitfield past).length = 1 → Dirty conn)) ?_ ?_
      turns (List.prefix_refl turns) finish log ran
    · cases bitfield with
      | none => simp [handled]
      | some bitfield =>
          refine ⟨by simp [handled], fun _ _ empty => ?_⟩
          exact serialize_nonempty (.bitfield bitfield) empty
    · intro past next conn log after effects began reached ⟨once, dirty⟩ turned
      have live := (turn_turned profile conn after next effects turned).1
      have size : (handled bitfield (past ++ [next])).length =
          (handled bitfield past).length + (sentMessage next).toList.length := by
        cases sends : sentMessage next with
        | none => simp [handled, List.filterMap_cons_none sends]
        | some message =>
            simp [handled, List.filterMap_cons_some sends]
            omega
      cases sends : sentMessage next with
      | none =>
          rw [size, sends]
          exact ⟨once, fun one => turn_dirty profile conn after next effects
            (Or.inl (dirty one)) turned⟩
      | some message =>
          have sent : sentMessage next ≠ none := by simp [sends]
          have empty := fresh past next conn log began sent reached live
          have first : (handled bitfield past).length = 0 := by
            by_contra more
            exact dirty (by omega) live empty
          rw [size, sends]
          exact ⟨by simp [first], fun _ => turn_dirty profile conn after next effects
            (Or.inr sent) turned⟩
  exact counted.1

/-- The written stream is right at every point of a run exactly when every send
of the run finds the shared buffer empty. -/
theorem outbound_exact_iff (profile : Profile) (bitfield : Option Bytes) (turns : List Turn) :
    (∀ past conn log, past <+: turns → runFrom profile bitfield past = some (conn, log) →
      written log = expected bitfield past) ↔ FreshSends profile bitfield turns := by
  constructor
  · intro right past next conn log began sends ran live
    cases next with
    -- The stream is right behind this send too, and it is right only after fresh sends.
    | command command =>
        have turned : turn profile conn (.command command) = some
            (handleManagerCommand { conn with reading := .lengthPrefix [] } command) := by
          simp [turn, live]
        have next := run_from_snoc profile bitfield past _ conn _ log _ ran turned
        have fresh := (run_only_excess profile bitfield _ _ _ next).2.mp (right _ _ _ began next)
        exact fresh past _ conn log (List.prefix_refl _) sends ran live
    | arrive | poll | commandsClosed | fails => exact absurd rfl sends
  · intro fresh past conn log began ran
    apply (run_only_excess profile bitfield past conn log ran).2.mpr
    intro earlier next other seen inside
    exact fresh earlier next other seen (inside.trans began)

/-- Two keep-alives on a fresh connection put twelve bytes on the stream. -/
theorem two_keep_alives_repeat :
    ¬ ∀ past conn log, past <+: [Turn.command .keepAlive, .command .keepAlive] →
      runFrom .wrapping none past = some (conn, log) → written log = expected none past := by
  intro right
  have wrong := right _ _ _ (List.prefix_refl _) rfl
  revert wrong
  decide

end MotteSeed.OutboundStream
