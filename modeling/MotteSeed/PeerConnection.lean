import MotteSeed.PeerWire
import MotteSeed.Toolkit.ByteImage
import MotteSeed.Toolkit.Framing
import MotteSeed.Toolkit.Runs

/-! One peer connection of `peer_connection.rs` as a labelled machine. The
`select!` loop picks a manager command or polls the pending `read_message`; the
pending read is explicit state, because a command that wins the `select!` drops
it together with the bytes it has consumed. One `BytesMut` serves the reader and
every sender. Bytes that `set_len` exposes come with the turn that exposes them. -/
namespace MotteSeed.PeerConnection
open Toolkit Toolkit.Checked Toolkit.Runs PeerWire

/-- Transfer rates and their clocks are left out; nothing modelled reads them. -/
structure PeerState where
  amChoking : Bool
  amInterested : Bool
  peerChoking : Bool
  peerInterested : Bool
  bitfield : Option Bytes
  requestedBlocks : List (UInt32 × UInt32 × UInt32)
  downloaded : Nat
  uploaded : Nat
  deriving DecidableEq

def PeerState.new (bitfield : Option Bytes) : PeerState :=
  { amChoking := true
    amInterested := false
    peerChoking := true
    peerInterested := false
    bitfield := bitfield
    requestedBlocks := []
    downloaded := 0
    uploaded := 0 }

def PeerState.hasPiece (state : PeerState) (index : UInt32) : Bool :=
  match state.bitfield with
  | some bitfield =>
      match bitfield[(index / 8).toNat]? with
      | some byte => byte &&& (1 <<< (7 - index % 8).toUInt8) ≠ 0
      | none => false
  | none => false

inductive PeerEvent where
  | peerChoked
  | peerUnchoked
  | peerInterested
  | peerNotInterested
  | receivedHave (pieceIndex : UInt32)
  | receivedBitfield (bitfield : Bytes)
  | requestedBlock (index begin length : UInt32)
  | receivedPiece (index begin : UInt32) (block : Bytes)
  | peerDisconnected
  | downloadRate
  deriving DecidableEq

inductive ManagerCommand where
  | keepAlive
  | choke
  | unchoke
  | interested
  | notInterested
  | havePiece (index : UInt32)
  | requestBlock (index begin length : UInt32)
  | cancelBlock (index begin length : UInt32)
  | disconnect
  deriving DecidableEq

inductive ConnectionError where
  | io
  | message (reason : MessageError)
  | sendError
  deriving DecidableEq

def handleMessage (state : PeerState) : Message → PeerState × List PeerEvent
  | .keepAlive => (state, [])
  | .choke => ({ state with peerChoking := true }, [.peerChoked])
  | .unChoke => ({ state with peerChoking := false }, [.peerUnchoked])
  | .interested => ({ state with peerInterested := true }, [.peerInterested])
  | .notInterested => ({ state with peerInterested := false }, [.peerNotInterested])
  | .havePiece index => (state, [.receivedHave index])
  | .bitfield bytes => ({ state with bitfield := some bytes }, [.receivedBitfield bytes])
  | .request index begin length => (state, [.requestedBlock index begin length])
  | .piece index begin block =>
      ({ state with downloaded := state.downloaded + block.length },
        [.receivedPiece index begin block, .downloadRate])
  | .cancel _ _ _ => (state, [])
  | .port _ => (state, [])

/-- The message a command is converted to; `Disconnect` returns early. -/
def commandMessage : ManagerCommand → Option Message
  | .keepAlive => some .keepAlive
  | .choke => some .choke
  | .unchoke => some .unChoke
  | .interested => some .interested
  | .notInterested => some .notInterested
  | .havePiece index => some (.havePiece index)
  | .requestBlock index begin length => some (.request index begin length)
  | .cancelBlock index begin length => some (.cancel index begin length)
  | .disconnect => none

/-- Progress of the pending `read_message`: inside the four length bytes, or
inside the body, whose bytes so far stand at the front of the shared buffer. -/
inductive ReadMessage where
  | lengthPrefix (lengthBuf : Bytes)
  | body (received : Nat)
  deriving DecidableEq

inductive Outcome where
  | returned (result : Except ConnectionError Unit)
  | panicked

structure Connection where
  state : PeerState
  buf : Bytes
  inbound : Bytes
  reading : ReadMessage
  outcome : Option Outcome

inductive Effect where
  | sent (bytes : Bytes)
  | deserialized (frame : Bytes)
  | event (event : PeerEvent)
  deriving DecidableEq

/-- One turn of the environment or of the `select!` loop. `poll` lets the pending
read take `count` of the bytes that have arrived; `stale` is what the buffer shows
after `set_len` when this poll completes a length prefix. `fails` is any `?` of
the loop taking its error exit on I/O or on a closed event channel. -/
inductive Turn where
  | arrive (bytes : Bytes)
  | poll (count : Nat) (stale : Bytes)
  | command (command : ManagerCommand)
  | commandsClosed
  | fails (reason : ConnectionError)
  deriving DecidableEq

def Connection.new : Connection :=
  { state := PeerState.new none
    buf := []
    inbound := []
    reading := .lengthPrefix []
    outcome := none }

def sendMessage (conn : Connection) (message : Message) : Connection × List Effect :=
  let buf := message.serializeInto conn.buf
  ({ conn with buf := buf }, [.sent buf])

def sendBitfield (conn : Connection) : Option Bytes → Connection × List Effect
  | none => (conn, [])
  | some bitfield => sendMessage conn (.bitfield bitfield)

def handleManagerCommand (conn : Connection) (command : ManagerCommand) :
    Connection × List Effect :=
  match commandMessage command with
  | none => (conn, [])
  | some message => sendMessage conn message

def Outcome.ofFault : Fault MessageError → Outcome
  | .error reason => .returned (.error (.message reason))
  | .overflow => .panicked
  | .bounds => .panicked

/-- The end of `read_message` and the `select!` arm that receives its result. -/
def finishRead (profile : Profile) (conn : Connection) : Connection × List Effect :=
  match Message.deserialize profile conn.buf with
  | .ok (message, left) =>
      let handled := handleMessage conn.state message
      ({ conn with state := handled.1, buf := left, reading := .lengthPrefix [] },
        .deserialized conn.buf :: handled.2.map .event)
  | .error fault =>
      ({ conn with outcome := some (.ofFault fault) }, [.deserialized conn.buf])

/-- What the pending read does with the bytes it is given. Reading the last
length byte sets the buffer up for the body; an empty body is complete at once. -/
def takeBytes (profile : Profile) (conn : Connection) (chunk stale : Bytes) :
    Option (Connection × List Effect) :=
  match conn.reading with
  | .lengthPrefix lengthBuf =>
      let filled := lengthBuf ++ chunk
      if filled.length < 4 then some ({ conn with reading := .lengthPrefix filled }, [])
      else if filled.length = 4 ∧ stale.length = BigEndian.decode filled then
        -- `clear` and `set_len` leave the announced length of unknown content.
        let opened := { conn with buf := stale, reading := .body 0 }
        if stale = [] then some (finishRead profile opened) else some (opened, [])
      else none
  | .body received =>
      let taken := received + chunk.length
      let filled := { conn with
        buf := ByteImage.overwrite conn.buf received chunk, reading := .body taken }
      if taken < conn.buf.length then some (filled, [])
      else if taken = conn.buf.length then some (finishRead profile filled)
      else none

def turn (profile : Profile) (conn : Connection) (next : Turn) :
    Option (Connection × List Effect) :=
  match conn.outcome with
  | some _ => none
  | none =>
      match next with
      | .arrive bytes => some ({ conn with inbound := conn.inbound ++ bytes }, [])
      | .poll count stale =>
          if 0 < count ∧ count ≤ conn.inbound.length then
            takeBytes profile { conn with inbound := conn.inbound.drop count }
              (conn.inbound.take count) stale
          else none
      | .command command =>
          -- The command wins the `select!`, and the read future is dropped with its progress.
          some (handleManagerCommand { conn with reading := .lengthPrefix [] } command)
      | .commandsClosed => some ({ conn with outcome := some (.returned (.ok ())) }, [])
      | .fails reason => some ({ conn with outcome := some (.returned (.error reason)) }, [])

def connection (profile : Profile) : Machine Connection Turn Effect := ⟨turn profile⟩

/-- `run` from the moment the handshake is done: the bitfield first, then the loop. -/
def runFrom (profile : Profile) (bitfield : Option Bytes) (turns : List Turn) :
    Option (Connection × List Effect) :=
  let opening := sendBitfield Connection.new bitfield
  match run (connection profile) opening.1 turns with
  | none => none
  | some (finish, effects) => some (finish, opening.2 ++ effects)

theorem run_from_iff (profile : Profile) (bitfield : Option Bytes) (turns : List Turn)
    (finish : Connection) (effects : List Effect) :
    runFrom profile bitfield turns = some (finish, effects) ↔
      ∃ later, run (connection profile) (sendBitfield Connection.new bitfield).1 turns =
          some (finish, later) ∧
        effects = (sendBitfield Connection.new bitfield).2 ++ later := by
  unfold runFrom
  cases ran : run (connection profile) (sendBitfield Connection.new bitfield).1 turns with
  | none => simp [ran]
  | some pair => simp [ran, Prod.ext_iff, eq_comm]

theorem run_from_history (profile : Profile) (bitfield : Option Bytes) (turns : List Turn)
    (inv : List Turn → Connection → List Effect → Prop)
    (initial : inv [] (sendBitfield Connection.new bitfield).1
      (sendBitfield Connection.new bitfield).2)
    (keeps : ∀ past next conn log after effects, past ++ [next] <+: turns →
      runFrom profile bitfield past = some (conn, log) → inv past conn log →
      turn profile conn next = some (after, effects) →
      inv (past ++ [next]) after (log ++ effects))
    (past : List Turn) (began : past <+: turns) (finish : Connection) (log : List Effect)
    (ran : runFrom profile bitfield past = some (finish, log)) : inv past finish log := by
  obtain ⟨later, looped, rfl⟩ := (run_from_iff profile bitfield past finish log).mp ran
  refine run_history (connection profile) _ turns
    (fun past conn log => inv past conn ((sendBitfield Connection.new bitfield).2 ++ log))
    (by simpa using initial) ?_ past began finish later looped
  intro past next conn log after effects ongoing ran holds turned
  have whole := (run_from_iff profile bitfield past conn _).mpr ⟨log, ran, rfl⟩
  simpa using keeps past next conn _ after effects ongoing whole holds turned

theorem run_from_snoc (profile : Profile) (bitfield : Option Bytes) (past : List Turn)
    (next : Turn) (conn after : Connection) (log effects : List Effect)
    (ran : runFrom profile bitfield past = some (conn, log))
    (turned : turn profile conn next = some (after, effects)) :
    runFrom profile bitfield (past ++ [next]) = some (after, log ++ effects) := by
  obtain ⟨later, looped, rfl⟩ := (run_from_iff profile bitfield past conn log).mp ran
  refine (run_from_iff profile bitfield (past ++ [next]) after _).mpr ⟨later ++ effects, ?_, ?_⟩
  · exact (run_snoc_iff _ _ after past next _).mpr ⟨conn, later, effects, looped, turned, rfl⟩
  · exact List.append_assoc _ _ _

/-- Everything one enabled turn can do, one constructor for each path through
the loop body. Reading is split where the length prefix or the body completes. -/
inductive Turned (profile : Profile) (conn : Connection) :
    Turn → Connection → List Effect → Prop where
  | arrive (bytes : Bytes) :
      Turned profile conn (.arrive bytes) { conn with inbound := conn.inbound ++ bytes } []
  | inPrefix (count : Nat) (stale lengthBuf : Bytes) (some_bytes : 0 < count)
      (there : count ≤ conn.inbound.length) (here : conn.reading = .lengthPrefix lengthBuf)
      (short : (lengthBuf ++ conn.inbound.take count).length < 4) :
      Turned profile conn (.poll count stale)
        { conn with
          inbound := conn.inbound.drop count
          reading := .lengthPrefix (lengthBuf ++ conn.inbound.take count) } []
  | opened (count : Nat) (stale lengthBuf : Bytes)
      (there : count ≤ conn.inbound.length) (here : conn.reading = .lengthPrefix lengthBuf)
      (full : (lengthBuf ++ conn.inbound.take count).length = 4)
      (width : stale.length = BigEndian.decode (lengthBuf ++ conn.inbound.take count))
      (more : stale ≠ []) :
      Turned profile conn (.poll count stale)
        { conn with inbound := conn.inbound.drop count, buf := stale, reading := .body 0 } []
  | emptyBody (count : Nat) (lengthBuf : Bytes) (finish : Connection) (effects : List Effect)
      (there : count ≤ conn.inbound.length) (here : conn.reading = .lengthPrefix lengthBuf)
      (full : (lengthBuf ++ conn.inbound.take count).length = 4)
      (width : 0 = BigEndian.decode (lengthBuf ++ conn.inbound.take count))
      (ended : finishRead profile
        { conn with inbound := conn.inbound.drop count, buf := [], reading := .body 0 } =
          (finish, effects)) :
      Turned profile conn (.poll count []) finish effects
  | inBody (count : Nat) (stale : Bytes) (received : Nat)
      (there : count ≤ conn.inbound.length) (here : conn.reading = .body received)
      (short : received + count < conn.buf.length) :
      Turned profile conn (.poll count stale)
        { conn with
          inbound := conn.inbound.drop count
          buf := ByteImage.overwrite conn.buf received (conn.inbound.take count)
          reading := .body (received + count) } []
  | finished (count : Nat) (stale : Bytes) (received : Nat) (finish : Connection)
      (effects : List Effect) (there : count ≤ conn.inbound.length)
      (here : conn.reading = .body received) (full : received + count = conn.buf.length)
      (ended : finishRead profile
        { conn with
          inbound := conn.inbound.drop count
          buf := ByteImage.overwrite conn.buf received (conn.inbound.take count)
          reading := .body (received + count) } = (finish, effects)) :
      Turned profile conn (.poll count stale) finish effects
  | command (command : ManagerCommand) (after : Connection) (effects : List Effect)
      (ran : handleManagerCommand { conn with reading := .lengthPrefix [] } command =
        (after, effects)) :
      Turned profile conn (.command command) after effects
  | commandsClosed :
      Turned profile conn .commandsClosed
        { conn with outcome := some (.returned (.ok ())) } []
  | fails (reason : ConnectionError) :
      Turned profile conn (.fails reason)
        { conn with outcome := some (.returned (.error reason)) } []

theorem turn_turned (profile : Profile) (conn after : Connection) (next : Turn)
    (effects : List Effect) (turned : turn profile conn next = some (after, effects)) :
    conn.outcome = none ∧ Turned profile conn next after effects := by
  obtain ⟨state, buf, inbound, reading, outcome⟩ := conn
  cases outcome with
  | some outcome => simp [turn] at turned
  | none =>
      refine ⟨rfl, ?_⟩
      cases next with
      | arrive bytes =>
          obtain ⟨rfl, rfl⟩ := by simpa [turn] using turned
          exact .arrive bytes
      | commandsClosed =>
          obtain ⟨rfl, rfl⟩ := by simpa [turn] using turned
          exact .commandsClosed
      | fails reason =>
          obtain ⟨rfl, rfl⟩ := by simpa [turn] using turned
          exact .fails reason
      | command command => exact .command command after effects (Option.some.inj turned)
      | poll count stale =>
          simp only [turn] at turned
          -- One case for each constructor that a poll can take.
          by_cases able : 0 < count ∧ count ≤ inbound.length
          · have width : (inbound.take count).length = count := List.length_take_of_le able.2
            rw [if_pos able] at turned
            cases reading with
            | lengthPrefix lengthBuf =>
                simp only [takeBytes] at turned
                by_cases short : (lengthBuf ++ inbound.take count).length < 4
                · rw [if_pos short] at turned
                  obtain ⟨rfl, rfl⟩ := by simpa using turned
                  exact .inPrefix count stale lengthBuf able.1 able.2 rfl short
                · rw [if_neg short] at turned
                  by_cases full : (lengthBuf ++ inbound.take count).length = 4 ∧
                      stale.length = BigEndian.decode (lengthBuf ++ inbound.take count)
                  · rw [if_pos full] at turned
                    by_cases exposed : stale = []
                    · subst exposed
                      rw [if_pos rfl] at turned
                      exact .emptyBody count lengthBuf after effects able.2 rfl full.1 full.2
                        (Option.some.inj turned)
                    · rw [if_neg exposed] at turned
                      obtain ⟨rfl, rfl⟩ := by simpa using turned
                      exact .opened count stale lengthBuf able.2 rfl full.1 full.2 exposed
                  · rw [if_neg full] at turned
                    cases turned
            | body received =>
                simp only [takeBytes, width] at turned
                by_cases short : received + count < buf.length
                · rw [if_pos short] at turned
                  obtain ⟨rfl, rfl⟩ := by simpa using turned
                  exact .inBody count stale received able.2 rfl short
                · rw [if_neg short] at turned
                  by_cases full : received + count = buf.length
                  · rw [if_pos full] at turned
                    exact .finished count stale received after effects able.2 rfl full
                      (Option.some.inj turned)
                  · rw [if_neg full] at turned
                    cases turned
          · rw [if_neg able] at turned
            cases turned

def liftFault : Fault MessageError → Fault ConnectionError
  | .error reason => .error (.message reason)
  | .overflow => .overflow
  | .bounds => .bounds

/-- `read_message` awaited to its end on a stream whose bytes have all arrived:
the message, what is left in the buffer and the rest of the stream. -/
def readMessage (profile : Profile) (_buf stream : Bytes) :
    Except (Fault ConnectionError) (Message × Bytes × Bytes) :=
  if stream.length < 4 then .error (.error .io)
  else
    let length := BigEndian.decode (stream.take 4)
    let rest := stream.drop 4
    if rest.length < length then .error (.error .io)
    else match Message.deserialize profile (rest.take length) with
      | .ok (message, left) => .ok (message, left, rest.drop length)
      | .error fault => .error (liftFault fault)

end MotteSeed.PeerConnection
