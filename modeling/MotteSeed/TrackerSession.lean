import MotteSeed.UdpRequests
import MotteSeed.Toolkit.Unreliable
import MotteSeed.Toolkit.Simulation

/-! `TrackerUDP::new` behind the bound socket, with the tracker at the other end of a
network that may lose, repeat and reorder datagrams: the exchange for the connection id,
then the announce over the same socket, with whatever the first has left in its queue.
Nobody but the tracker sends to the socket. -/
namespace MotteSeed.TrackerSession
open Toolkit Toolkit.Runs Toolkit.Exchange Toolkit.Unreliable PeerWire TorrentMeta PieceStore
  Tracker UdpTracker PeerLists UdpExchange UdpRequests

inductive Session where
  | connecting (state : State Bytes UInt64 TrackerError)
  | announcing (connectionId : UInt64) (state : State Bytes AnnounceResponseUdp TrackerError)

inductive Turn where
  | send
  | read
  | expire
  | next

def Turn.event : Turn → Option (Event Bytes)
  | .send => some .send
  | .read => some .read
  | .expire => some .expire
  | .next => none

structure Script where
  connectIds : Nat → UInt32
  announceIds : Nat → UInt32
  request : AnnounceRequestUdp
  stats : Nat → TorrentStats

section Client

variable (script : Script)

def Script.announce (connectionId : UInt64) :
    Protocol UInt32 Bytes AnnounceResponseUdp AnnounceResponseUdp TrackerError :=
  UdpTracker.announce connectionId script.request script.stats

def Session.turn (session : Session) (turn : Turn) : Option (Session × List Bytes) :=
  match session, turn.event with
  | .connecting state, some event =>
      ((getConnectionId.machine script.connectIds).step state event).map fun moved =>
        (.connecting moved.1, moved.2)
  | .announcing connectionId state, some event =>
      (((script.announce connectionId).machine script.announceIds).step state event).map
        fun moved => (.announcing connectionId moved.1, moved.2)
  | .connecting ⟨queue, .returned (.ok connectionId)⟩, none =>
      some (.announcing connectionId ((script.announce connectionId).initial queue), [])
  | _, none => none

def Session.arrive : Session → Bytes → Session
  | .connecting state, datagram => .connecting ⟨state.queue ++ [datagram], state.phase⟩
  | .announcing connectionId state, datagram =>
      .announcing connectionId ⟨state.queue ++ [datagram], state.phase⟩

def parties {Server : Type} (serve : Server → Bytes → Server × List Bytes) :
    Parties Session Server Turn Bytes :=
  { turn := Session.turn script, arrive := Session.arrive, serve }

def opening {Server : Type} (server : Server) : Net Session Server Bytes :=
  .start (.connecting (getConnectionId.initial [])) server

inductive Turned : Session → Turn → Session → List Bytes → Prop where
  | connecting (state next : State Bytes UInt64 TrackerError) (turn : Turn)
      (event : Event Bytes) (sent : List Bytes) (own : ∀ datagram, event ≠ .arrive datagram)
      (stepped : (getConnectionId.machine script.connectIds).step state event =
        some (next, sent)) :
      Turned (.connecting state) turn (.connecting next) sent
  | announcing (connectionId : UInt64) (state next : State Bytes AnnounceResponseUdp TrackerError)
      (turn : Turn) (event : Event Bytes) (sent : List Bytes)
      (own : ∀ datagram, event ≠ .arrive datagram)
      (stepped : ((script.announce connectionId).machine script.announceIds).step state event =
        some (next, sent)) :
      Turned (.announcing connectionId state) turn (.announcing connectionId next) sent
  | next (queue : List Bytes) (connectionId : UInt64) :
      Turned (.connecting ⟨queue, .returned (.ok connectionId)⟩) .next
        (.announcing connectionId ((script.announce connectionId).initial queue)) []

theorem turn_event_own (turn : Turn) (event : Event Bytes) (same : turn.event = some event)
    (datagram : Bytes) : event ≠ .arrive datagram := by
  rintro rfl
  cases turn <;> cases same

theorem turn_turned (session after : Session) (turn : Turn) (sent : List Bytes)
    (moved : session.turn script turn = some (after, sent)) :
    Turned script session turn after sent := by
  unfold Session.turn at moved
  split at moved
  · rename_i state event same
    obtain ⟨⟨next, out⟩, stepped, rest⟩ := Option.map_eq_some_iff.mp moved
    obtain ⟨rfl, rfl⟩ := Prod.mk.inj rest
    exact .connecting state next turn event out (turn_event_own turn event same) stepped
  · rename_i connectionId state event same
    obtain ⟨⟨next, out⟩, stepped, rest⟩ := Option.map_eq_some_iff.mp moved
    obtain ⟨rfl, rfl⟩ := Prod.mk.inj rest
    exact .announcing connectionId state next turn event out (turn_event_own turn event same)
      stepped
  · rename_i queue connectionId none_left
    obtain ⟨rfl, rfl⟩ := Prod.mk.inj (Option.some.inj moved)
    cases turn with
    | next => exact .next queue connectionId
    | send | read | expire => cases none_left
  · cases moved

end Client

section Genuine

/-- A reply carries the transaction id of its request, and the action of its request or
that of an error. -/
def Conforms (request reply : Bytes) : Prop :=
  u32Field reply 4 = u32Field request 12 ∧
    (u32Field reply 0 = u32Field request 8 ∨ u32Field reply 0 = 3)

theorem connection_bytes_header (response : ConnectionResponse) :
    u32Field (connectionBytes response) 0 = response.action ∧
      u32Field (connectionBytes response) 4 = response.transactionId := by
  simp (disch := simp) only [connectionBytes, List.append_assoc, u32_field_behind,
    BigEndian.encode_length, Nat.reduceSub, u32_field_first, UInt32.ofNat_toNat, and_self]

theorem reply_bytes_header (response : AnnounceResponseUdp) :
    u32Field (replyBytes response) 0 = response.action ∧
      u32Field (replyBytes response) 4 = response.transactionId := by
  simp (disch := simp) only [replyBytes, headerBytes, List.append_assoc, u32_field_behind,
    BigEndian.encode_length, Nat.reduceSub, u32_field_first, UInt32.ofNat_toNat, and_self]

theorem recv_from_field (datagram : Bytes) (index : Nat) (inside : index + 4 ≤ 1024) :
    u32Field (recvFrom datagram) index = u32Field datagram index := by
  rw [u32Field, u32Field, recvFrom, List.drop_take, List.take_take, Nat.min_eq_left (by omega)]

variable (script : Script)

def ConnectAsked (datagram : Bytes) : Prop :=
  ∃ attempt, datagram = createConnectRequest (script.connectIds attempt)

def announceBytes (connectionId : UInt64) (attempt : Nat) : Bytes :=
  script.request.toBytes (script.stats attempt) connectionId (script.announceIds attempt)

def Granted (connectionId : UInt64) (served : List (Bytes × Bytes)) : Prop :=
  ∃ attempt, (createConnectRequest (script.connectIds attempt),
    connectReply (script.connectIds attempt) connectionId) ∈ served

def Known (served : List (Bytes × Bytes)) (datagram : Bytes) : Prop :=
  ∃ request, (request, datagram) ∈ served

/-- The first exchange has sent connect requests only; the second one sends announces under
an id that was granted. What either has in its queue was served. -/
inductive Sound (asked : List Bytes) (served : List (Bytes × Bytes)) : Session → Prop where
  | connecting (state : State Bytes UInt64 TrackerError)
      (grounded : Grounded getConnectionId script.connectIds (Known served) asked state)
      (mine : ∀ datagram ∈ asked, ConnectAsked script datagram) :
      Sound asked served (.connecting state)
  | announcing (connectionId : UInt64) (state : State Bytes AnnounceResponseUdp TrackerError)
      (granted : Granted script connectionId served)
      (grounded : Grounded (script.announce connectionId) script.announceIds (Known served) asked
        state)
      (mine : ∀ datagram ∈ asked, ConnectAsked script datagram ∨
        ∃ attempt, datagram = announceBytes script connectionId attempt) :
      Sound asked served (.announcing connectionId state)

def Answered (asked : List Bytes) (served : List (Bytes × Bytes)) : Prop :=
  ∀ request reply, (request, reply) ∈ served → request ∈ asked ∧ Conforms request reply

theorem returned_granted (asked : List Bytes) (served : List (Bytes × Bytes))
    (queue : List Bytes) (connectionId : UInt64) (answered : Answered asked served)
    (grounded : Grounded getConnectionId script.connectIds (Known served) asked
      ⟨queue, .returned (.ok connectionId)⟩)
    (mine : ∀ datagram ∈ asked, ConnectAsked script datagram) :
    Granted script connectionId served := by
  obtain ⟨attempt, datagram, reply, -, ⟨request, known⟩, received, fits, rfl⟩ :=
    grounded.accepted connectionId rfl
  have bytes := (recv_conn_id_iff datagram reply).mp received
  have shape := (connect_matched_iff _ _).mp fits
  obtain ⟨there, conforms, -⟩ := answered request datagram known
  obtain ⟨sender, rfl⟩ := mine request there
  have transaction : reply.transactionId = script.connectIds attempt :=
    congrArg ConnectionResponse.transactionId shape
  rw [← bytes, (connection_bytes_header reply).2, (connect_request_header _).2.2,
    transaction] at conforms
  refine ⟨attempt, ?_⟩
  rw [connectReply, conforms]
  rw [← bytes, shape, conforms] at known
  exact known

theorem sound_turn (asked sent : List Bytes) (served : List (Bytes × Bytes))
    (session after : Session) (turn : Turn) (answered : Answered asked served)
    (sound : Sound script asked served session)
    (moved : session.turn script turn = some (after, sent)) :
    Sound script (asked ++ sent) served after := by
  cases turn_turned script session after turn sent moved with
  | connecting state next _ event _ own stepped =>
      cases sound with
      | connecting _ grounded mine =>
          obtain ⟨kept, requests⟩ := grounded_step getConnectionId script.connectIds _ asked sent
            state next event own grounded stepped
          refine .connecting next kept fun datagram member => ?_
          rcases List.mem_append.mp member with old | new
          · exact mine datagram old
          · exact requests datagram new
  | announcing connectionId state next _ event _ own stepped =>
      cases sound with
      | announcing _ _ granted grounded mine =>
          obtain ⟨kept, requests⟩ := grounded_step (script.announce connectionId)
            script.announceIds _ asked sent state next event own grounded stepped
          refine .announcing connectionId next granted kept fun datagram member => ?_
          rcases List.mem_append.mp member with old | new
          · exact mine datagram old
          · exact Or.inr (requests datagram new)
  | next queue connectionId =>
      cases sound with
      | connecting _ grounded mine =>
          rw [List.append_nil]
          refine .announcing connectionId _
            (returned_granted script asked served queue connectionId answered grounded mine)
            (grounded_start _ _ _ asked queue 0 grounded.queued)
            fun datagram member => Or.inl (mine datagram member)

theorem sound_more (asked : List Bytes) (served more : List (Bytes × Bytes)) (session : Session)
    (sound : Sound script asked served session) :
    Sound script asked (served ++ more) session := by
  have wider : ∀ datagram, Known served datagram → Known (served ++ more) datagram :=
    fun datagram ⟨request, known⟩ => ⟨request, List.mem_append_left more known⟩
  cases sound with
  | connecting state grounded mine =>
      exact .connecting state (grounded_mono _ _ _ _ asked state wider grounded) mine
  | announcing connectionId state granted grounded mine =>
      obtain ⟨attempt, known⟩ := granted
      exact .announcing connectionId state ⟨attempt, List.mem_append_left more known⟩
        (grounded_mono _ _ _ _ asked state wider grounded) mine

theorem sound_arrive (asked : List Bytes) (served : List (Bytes × Bytes)) (session : Session)
    (request reply : Bytes) (known : (request, reply) ∈ served)
    (sound : Sound script asked served session) :
    Sound script asked served (session.arrive reply) := by
  cases sound with
  | connecting state grounded mine =>
      exact .connecting _ (grounded_arrive _ _ _ asked state reply ⟨request, known⟩ grounded) mine
  | announcing connectionId state granted grounded mine =>
      exact .announcing connectionId _ granted
        (grounded_arrive _ _ _ asked state reply ⟨request, known⟩ grounded) mine

theorem run_sound {Server : Type} (serve : Server → Bytes → Server × List Bytes)
    (conforms : ∀ server request, ∀ reply ∈ (serve server request).2, Conforms request reply)
    (server : Server) (acts : List (Unreliable.Act Turn Bytes)) (finish : Net Session Server Bytes)
    (log : List Bytes)
    (ran : run (parties script serve).machine (opening server) acts = some (finish, log)) :
    Answered finish.asked finish.served ∧
      Sound script finish.asked finish.served finish.client := by
  refine run_relies (parties script serve) Conforms conforms
    (fun session asked served => Answered asked served ∧ Sound script asked served session)
    ?_ ?_ ?_ (opening server) finish acts log ⟨nofun, ?_⟩ ran
  · rintro session asked served turn next sent ⟨answered, sound⟩ moved
    refine ⟨fun request reply known => ?_,
      sound_turn script asked sent served session next turn answered sound moved⟩
    obtain ⟨there, fits⟩ := answered request reply known
    exact ⟨List.mem_append_left sent there, fits⟩
  · rintro session asked served request replies ⟨answered, sound⟩ there guaranteed
    refine ⟨fun other reply known => ?_, sound_more script asked served _ session sound⟩
    rcases List.mem_append.mp known with old | new
    · exact answered other reply old
    · obtain ⟨same, member, pair⟩ := List.mem_map.mp new
      obtain ⟨rfl, rfl⟩ := Prod.mk.inj pair
      exact ⟨there, guaranteed _ member⟩
  · rintro session asked served request reply ⟨answered, sound⟩ known
    exact ⟨answered, sound_arrive script asked served session request reply known sound⟩
  · exact .connecting _ (grounded_start _ _ _ [] [] 0 nofun) nofun

/-- Whatever the network does, a session that ends with a response has it from the tracker:
its connection id was granted to one of its connect requests, and the response is what was
served for an announce under this id that carries the transaction id of the last one. -/
theorem session_genuine {Server : Type} (serve : Server → Bytes → Server × List Bytes)
    (conforms : ∀ server request, ∀ reply ∈ (serve server request).2, Conforms request reply)
    (server : Server) (acts : List (Unreliable.Act Turn Bytes)) (finish : Net Session Server Bytes)
    (log : List Bytes)
    (ran : run (parties script serve).machine (opening server) acts = some (finish, log))
    (connectionId : UInt64) (queue : List Bytes) (response : AnnounceResponseUdp)
    (done : finish.client = .announcing connectionId ⟨queue, .returned (.ok response)⟩) :
    Granted script connectionId finish.served ∧
      ∃ attempt answered datagram,
        finish.asked.getLast? = some (announceBytes script connectionId attempt) ∧
        script.announceIds answered = script.announceIds attempt ∧
        (announceBytes script connectionId answered, datagram) ∈ finish.served ∧
        recvFrom datagram = replyBytes response := by
  obtain ⟨answered, sound⟩ := run_sound script serve conforms server acts finish log ran
  rw [done] at sound
  cases sound with
  | announcing _ _ granted grounded mine =>
      refine ⟨granted, ?_⟩
      obtain ⟨attempt, datagram, reply, last, ⟨request, known⟩, received, fits, same⟩ :=
        grounded.accepted response rfl
      obtain rfl : response = reply := same
      have bytes := (recv_announce_iff datagram response).mp received
      obtain ⟨action, transaction⟩ := (announce_matched_iff _ _ _ _ _).mp fits
      obtain ⟨there, carried, kind⟩ := answered request datagram known
      rw [← recv_from_field datagram 4 (by decide), ← bytes, (reply_bytes_header response).2,
        transaction] at carried
      rw [← recv_from_field datagram 0 (by decide), ← bytes, (reply_bytes_header response).1,
        action] at kind
      rcases mine request there with ⟨sender, rfl⟩ | ⟨sender, rfl⟩
      -- The reply to a connect request would have its action.
      · rw [(connect_request_header _).2.1] at kind
        rcases kind with wrong | wrong <;> cases wrong
      · rw [announceBytes, (announce_request_header _ _ _ _).2.2] at carried
        exact ⟨attempt, sender, datagram, last, carried.symm, known, bytes.symm⟩

def plainTracker (connectionId : UInt64) (peers : List PeerIp) (_ : Unit) (request : Bytes) :
    Unit × List Bytes :=
  match readRequest request with
  | some (.connect transactionId) => ((), [connectReply transactionId connectionId])
  | some (.announce _ transactionId _ _) =>
      ((), [replyBytes ⟨1, transactionId, 60, 0, 1, peers⟩])
  | none => ((), [])

theorem plain_tracker_conforms (connectionId : UInt64) (peers : List PeerIp) (server : Unit)
    (request reply : Bytes) (member : reply ∈ (plainTracker connectionId peers server request).2) :
    Conforms request reply := by
  unfold plainTracker at member
  split at member
  · rename_i transactionId read
    obtain rfl := read_request_sound request _ read
    obtain rfl := List.mem_singleton.mp member
    obtain ⟨-, action, transaction⟩ := connect_request_header transactionId
    obtain ⟨kind, carried⟩ := connection_bytes_header ⟨0, transactionId, connectionId⟩
    exact ⟨carried.trans transaction.symm, Or.inl (kind.trans action.symm)⟩
  · rename_i id transactionId announced stats read
    obtain rfl := read_request_sound request _ read
    obtain rfl := List.mem_singleton.mp member
    obtain ⟨-, action, transaction⟩ := announce_request_header announced stats id transactionId
    obtain ⟨kind, carried⟩ := reply_bytes_header ⟨1, transactionId, 60, 0, 1, peers⟩
    exact ⟨carried.trans transaction.symm, Or.inl (kind.trans action.symm)⟩
  · cases member

def oneByOne : Script where
  connectIds := fun attempt => UInt32.ofNat attempt + 7
  announceIds := fun attempt => UInt32.ofNat attempt + 9
  request := .new (.replicate 20 1) (.replicate 20 2) 6881 5
  stats := fun _ => ⟨0, 0, 0⟩

def plainTurns : List (Unreliable.Act Turn Bytes) :=
  [.turn .send, .serve (createConnectRequest 7), .deliver (connectReply 7 4), .turn .read,
    .turn .next, .turn .send, .serve (announceBytes oneByOne 4 0),
    .deliver (replyBytes ⟨1, 9, 60, 0, 1, []⟩), .turn .read]

theorem session_genuine_plain : Granted oneByOne 4
    [(createConnectRequest 7, connectReply 7 4),
      (announceBytes oneByOne 4 0, replyBytes ⟨1, 9, 60, 0, 1, []⟩)] :=
  (session_genuine oneByOne (plainTracker 4 []) (plain_tracker_conforms 4 []) () plainTurns
    ⟨.announcing 4 ⟨[], .returned (.ok ⟨1, 9, 60, 0, 1, []⟩)⟩, (),
      [createConnectRequest 7, announceBytes oneByOne 4 0],
      [(createConnectRequest 7, connectReply 7 4),
        (announceBytes oneByOne 4 0, replyBytes ⟨1, 9, 60, 0, 1, []⟩)]⟩
    [createConnectRequest 7, announceBytes oneByOne 4 0] rfl 4 [] ⟨1, 9, 60, 0, 1, []⟩ rfl).1

end Genuine

section Leftovers

variable (script : Script)

def lengthFault : TrackerError :=
  .other "Invalid tracker response length: expected at least 20, got 16"

/-- A connect reply stands in front of everything that the announce will read, or has
been read by it. -/
inductive Doomed : Session → Prop where
  | connected (response : ConnectionResponse) (rest : List Bytes) (connectionId : UInt64) :
      Doomed (.connecting ⟨connectionBytes response :: rest, .returned (.ok connectionId)⟩)
  | sending (response : ConnectionResponse) (rest : List Bytes) (connectionId : UInt64)
      (attempt : Nat) :
      Doomed (.announcing connectionId ⟨connectionBytes response :: rest, .sending attempt⟩)
  | waiting (response : ConnectionResponse) (rest : List Bytes) (connectionId : UInt64)
      (attempt : Nat) :
      Doomed (.announcing connectionId ⟨connectionBytes response :: rest, .waiting attempt⟩)
  | failed (queue : List Bytes) (connectionId : UInt64) :
      Doomed (.announcing connectionId ⟨queue, .returned (.error lengthFault)⟩)

theorem connect_reply_short (response : ConnectionResponse) :
    recvAnnounceResponse (connectionBytes response) = .error lengthFault := by
  have size := connection_bytes_length response
  rw [recvAnnounceResponse, recv_from_fits _ (by omega), size]
  rfl

theorem connect_reply_judged (connectionId : UInt64) (attempt : Nat)
    (response : ConnectionResponse) :
    (script.announce connectionId).judge attempt (script.announceIds attempt)
      (connectionBytes response) = .returned (.error lengthFault) := by
  have received : (script.announce connectionId).receive (connectionBytes response) =
      .error lengthFault := connect_reply_short response
  rw [Protocol.judge, received]

theorem doomed_arrive (session : Session) (datagram : Bytes) (doomed : Doomed session) :
    Doomed (session.arrive datagram) := by
  cases doomed with
  | connected response rest connectionId => exact .connected response _ connectionId
  | sending response rest connectionId attempt => exact .sending response _ connectionId attempt
  | waiting response rest connectionId attempt => exact .waiting response _ connectionId attempt
  | failed queue connectionId => exact .failed _ connectionId

theorem doomed_turn (session after : Session) (turn : Turn) (sent : List Bytes)
    (doomed : Doomed session) (moved : session.turn script turn = some (after, sent)) :
    Doomed after := by
  cases turn_turned script session after turn sent moved with
  | connecting state next _ event _ own stepped =>
      cases doomed with
      | connected response rest connectionId =>
          rcases step_cases _ _ _ _ _ _ stepped with
            ⟨datagram, same, -⟩ | ⟨_, -, wrong, -⟩ | ⟨_, _, _, -, wrong, -⟩ | ⟨_, -, wrong, -⟩
          · exact (own datagram same).elim
          all_goals cases wrong
  | announcing connectionId state next _ event _ own stepped =>
      rcases step_cases _ _ _ _ _ _ stepped with
        ⟨datagram, same, -⟩ | ⟨attempt, -, phase, -, rfl⟩ |
          ⟨attempt, datagram, rest, -, rfl, -, rfl⟩ | ⟨attempt, -, rfl, -, rfl⟩
      · exact (own datagram same).elim
      · cases doomed with
        | sending response rest => exact .waiting response rest connectionId attempt
        | waiting | failed => cases phase
      · cases doomed with
        | waiting response =>
            rw [connect_reply_judged]
            exact .failed rest connectionId
      · cases doomed
  | next queue connectionId =>
      cases doomed with
      | connected response rest => exact .sending response rest connectionId 0

/-- A connect reply that comes twice or late ends the session: once the id has been
returned and the reply is the next datagram of the socket, nothing that the network or the
tracker does keeps the announce from failing, with attempts left or not. -/
theorem leftover_reply_fatal {Server : Type} (serve : Server → Bytes → Server × List Bytes)
    (net : Net Session Server Bytes) (response : ConnectionResponse) (rest : List Bytes)
    (connectionId : UInt64) (left : net.client =
      .connecting ⟨connectionBytes response :: rest, .returned (.ok connectionId)⟩ ∨
        ∃ attempt, net.client =
          .announcing connectionId ⟨connectionBytes response :: rest, .sending attempt⟩ ∨
        net.client =
          .announcing connectionId ⟨connectionBytes response :: rest, .waiting attempt⟩) :
    ∀ acts finish log, run (parties script serve).machine net acts = some (finish, log) →
      ∀ id queue result, finish.client = .announcing id ⟨queue, .returned result⟩ →
        result = .error lengthFault := by
  intro acts finish log ran id queue result done
  have initial : Doomed net.client := by
    rcases left with same | ⟨attempt, same | same⟩
    · rw [same]
      exact .connected response rest connectionId
    · rw [same]
      exact .sending response rest connectionId attempt
    · rw [same]
      exact .waiting response rest connectionId attempt
  have kept : Doomed finish.client := by
    refine run_state_invariant (parties script serve).machine (fun net => Doomed net.client) ?_
      net finish acts log initial ran
    intro net act next emitted holds moved
    cases step_stepped (parties script serve) net next act emitted moved with
    | turned turn client sent taken => exact doomed_turn script _ _ turn sent holds taken
    | served request asked => exact holds
    | delivered request reply known => exact doomed_arrive _ reply holds
  rw [done] at kept
  cases kept with
  | failed => rfl

def grantedTwice : Net Session Unit Bytes :=
  ⟨.connecting ⟨[connectReply 7 4], .returned (.ok 4)⟩, (), [createConnectRequest 7],
    [(createConnectRequest 7, connectReply 7 4)]⟩

theorem leftover_reply_fatal_twice :
    run (parties oneByOne (plainTracker 4 [])).machine (opening ())
        [.turn .send, .serve (createConnectRequest 7), .deliver (connectReply 7 4),
          .deliver (connectReply 7 4), .turn .read] =
      some (grantedTwice, [createConnectRequest 7]) ∧
    ∀ acts finish log, run (parties oneByOne (plainTracker 4 [])).machine grantedTwice acts =
        some (finish, log) →
      ∀ id queue result, finish.client = .announcing id ⟨queue, .returned result⟩ →
        result = .error lengthFault :=
  ⟨rfl, leftover_reply_fatal oneByOne (plainTracker 4 []) grantedTwice ⟨0, 7, 4⟩ [] 4
    (Or.inl rfl)⟩

end Leftovers

section Losses

variable (script : Script)

def Turn.of : Event Bytes → Turn
  | .send => .send
  | .read => .read
  | .expire => .expire
  | .arrive _ => .next

def Own (event : Event Bytes) : Prop := ∀ datagram, event ≠ .arrive datagram

theorem turn_of_event (event : Event Bytes) (own : Own event) :
    (Turn.of event).event = some event := by
  cases event with
  | arrive datagram => exact (own datagram rfl).elim
  | send | read | expire => rfl

variable {Server : Type} (serve : Server → Bytes → Server × List Bytes)

theorem connecting_step (state : State Bytes UInt64 TrackerError) (event : Event Bytes)
    (next : State Bytes UInt64 TrackerError) (sent : List Bytes) (own : Own event)
    (stepped : (getConnectionId.machine script.connectIds).step state event = some (next, sent)) :
    (parties script serve).alone.step (.connecting state) (Turn.of event) =
      some (.connecting next, sent) := by
  change Session.turn script _ _ = _
  rw [Session.turn.eq_def, turn_of_event event own]
  exact congrArg (Option.map _) stepped

theorem announcing_step (connectionId : UInt64)
    (state : State Bytes AnnounceResponseUdp TrackerError) (event : Event Bytes)
    (next : State Bytes AnnounceResponseUdp TrackerError) (sent : List Bytes) (own : Own event)
    (stepped : ((script.announce connectionId).machine script.announceIds).step state event =
      some (next, sent)) :
    (parties script serve).alone.step (.announcing connectionId state) (Turn.of event) =
      some (.announcing connectionId next, sent) := by
  change Session.turn script _ _ = _
  rw [Session.turn.eq_def, turn_of_event event own]
  exact congrArg (Option.map _) stepped

theorem attempts_own (count : Nat) (event : Event Bytes)
    (member : event ∈ lost count ++ [Event.send]) : Own event := by
  rcases List.mem_append.mp member with old | new
  · exact lost_own count event old
  · rw [List.mem_singleton.mp new]
    exact nofun

def attempts (count : Nat) (request reply : Bytes) (after : List Turn) :
    List (Unreliable.Act Turn Bytes) :=
  ((lost count ++ [Event.send]).map Turn.of).map .turn ++
    ([.serve request, .deliver reply] ++ after.map .turn)

theorem run_connects (count : Nat) (room : count < maxRetries) (server : Server)
    (connectionId : UInt64)
    (grants : (serve server (createConnectRequest (script.connectIds count))).2 =
      [connectReply (script.connectIds count) connectionId]) :
    ∃ asked served log, run (parties script serve).machine (opening server)
        (attempts count (createConnectRequest (script.connectIds count))
          (connectReply (script.connectIds count) connectionId) [.read, .next]) =
      some (⟨.announcing connectionId ((script.announce connectionId).initial []),
        (serve server (createConnectRequest (script.connectIds count))).1, asked, served⟩,
        log) := by
  obtain ⟨sent, ran, here⟩ := run_lost_sent getConnectionId script.connectIds count room
  have sends := run_embeds _ (parties script serve).alone .connecting Turn.of Own
    (connecting_step script serve) _ _ _ sent (attempts_own count) ran
  have read := (first_reply_returned getConnectionId script.connectIds count
    (connectReply (script.connectIds count) connectionId) [] ⟨0, _, connectionId⟩
    ((recv_conn_id_iff _ _).mpr rfl) ((connect_matched_iff _ _).mpr rfl)).1
  have reads : run (parties script serve).alone
      ((parties script serve).arrive (.connecting ⟨[], .waiting count⟩)
        (connectReply (script.connectIds count) connectionId)) [.read, .next] =
      some (.announcing connectionId ((script.announce connectionId).initial []), []) :=
    (run_cons_iff _ _ _ _ _ _).mpr ⟨.connecting ⟨[], .returned (.ok connectionId)⟩, [], [],
      connecting_step script serve _ .read _ [] nofun read, rfl, rfl⟩
  exact ⟨_, _, _, run_exchanged (parties script serve) (opening server) _ _ _ _ _ _ sent []
    sends here grants reads⟩

theorem run_announces (count : Nat) (room : count < maxRetries) (server : Server)
    (asked : List Bytes) (served : List (Bytes × Bytes)) (connectionId : UInt64)
    (response : AnnounceResponseUdp) (action : response.action = 1)
    (transaction : response.transactionId = script.announceIds count)
    (small : response.peers.length ≤ 167)
    (answers : (serve server (announceBytes script connectionId count)).2 =
      [replyBytes response]) :
    ∃ finish log, run (parties script serve).machine
        ⟨.announcing connectionId ((script.announce connectionId).initial []), server, asked,
          served⟩
        (attempts count (announceBytes script connectionId count) (replyBytes response)
          [.read]) = some (finish, log) ∧
      finish.client = .announcing connectionId ⟨[], .returned (.ok response)⟩ := by
  obtain ⟨sent, ran, here⟩ := run_lost_sent (script.announce connectionId) script.announceIds
    count room
  have sends := run_embeds _ (parties script serve).alone (.announcing connectionId) Turn.of Own
    (announcing_step script serve connectionId) _ _ _ sent (attempts_own count) ran
  have read := (first_reply_returned (script.announce connectionId) script.announceIds count
    (replyBytes response) [] response
    ((announce_receive _ _ _ _).trans (recv_reply_fits response small))
    ((announce_matched_iff _ _ _ _ _).mpr ⟨action, transaction⟩)).1
  have reads : run (parties script serve).alone
      ((parties script serve).arrive (.announcing connectionId ⟨[], .waiting count⟩)
        (replyBytes response)) [.read] =
      some (.announcing connectionId ⟨[], .returned (.ok response)⟩, []) :=
    run_one _ _ _ _ _ (announcing_step script serve connectionId _ .read _ [] nofun read)
  exact ⟨_, _, run_exchanged (parties script serve) _ _ _ _ _ _ _ sent [] sends here answers
    reads, rfl⟩

/-- Two lost attempts in each exchange do not keep the session from the response. -/
theorem losses_survived (first second : Nat) (connects : first < maxRetries)
    (announces : second < maxRetries) (server : Server) (connectionId : UInt64)
    (response : AnnounceResponseUdp) (action : response.action = 1)
    (transaction : response.transactionId = script.announceIds second)
    (small : response.peers.length ≤ 167)
    (grants : (serve server (createConnectRequest (script.connectIds first))).2 =
      [connectReply (script.connectIds first) connectionId])
    (answers : (serve (serve server (createConnectRequest (script.connectIds first))).1
      (announceBytes script connectionId second)).2 = [replyBytes response]) :
    ∃ finish log, run (parties script serve).machine (opening server)
        (attempts first (createConnectRequest (script.connectIds first))
            (connectReply (script.connectIds first) connectionId) [.read, .next] ++
          attempts second (announceBytes script connectionId second) (replyBytes response)
            [.read]) = some (finish, log) ∧
      finish.client = .announcing connectionId ⟨[], .returned (.ok response)⟩ := by
  obtain ⟨asked, served, before, connected⟩ :=
    run_connects script serve first connects server connectionId grants
  obtain ⟨finish, after, announced, done⟩ := run_announces script serve second announces _ asked
    served connectionId response action transaction small answers
  exact ⟨finish, _, (run_append_iff _ _ _ _ _ _).mpr
    ⟨_, before, after, connected, announced, rfl⟩, done⟩

theorem losses_survived_two : ∃ finish log,
    run (parties oneByOne (plainTracker 4 [])).machine (opening ())
        (attempts 2 (createConnectRequest 9) (connectReply 9 4) [.read, .next] ++
          attempts 2 (announceBytes oneByOne 4 2) (replyBytes ⟨1, 11, 60, 0, 1, []⟩) [.read]) =
      some (finish, log) ∧
    finish.client = .announcing 4 ⟨[], .returned (.ok ⟨1, 11, 60, 0, 1, []⟩)⟩ :=
  losses_survived oneByOne (plainTracker 4 []) 2 2 (by decide) (by decide) () 4
    ⟨1, 11, 60, 0, 1, []⟩ rfl rfl (by decide) rfl rfl

end Losses

end MotteSeed.TrackerSession
