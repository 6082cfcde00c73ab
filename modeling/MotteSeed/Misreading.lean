import MotteSeed.MessageGrammar
import MotteSeed.WiredProgram

/-! What peers that keep to the protocol are heard to say. The parser takes the first four
bytes of a body for its length, and with the kind of the message in front this length is
beyond every body of ordinary size: no bitfield and no block is ever heard, so that nothing
is ever asked for. -/
namespace MotteSeed.Misreading
open Toolkit Toolkit.Checked Toolkit.Runs Toolkit.Framing PeerWire PeerConnection InboundStream
  Conversation

section Bodies

/-- The payload fits its prefix, and the body has at most 64 MiB. -/
def Ordinary (message : Message) : Prop :=
  MessageFits message ∧ (messageBody message).length ≤ 2 ^ 26

def carriesPayload : Message → Bool
  | .bitfield _ | .piece _ _ _ => true
  | _ => false

theorem body_kind (message : Message) (enough : 4 ≤ (messageBody message).length) :
    ∃ kind fields, messageBody message = kind :: fields ∧ 4 ≤ kind.toNat := by
  cases message with
  | keepAlive | choke | unChoke | interested | notInterested | port =>
      simp [messageBody, Message.serialize, Message.serializeInto, putU32, putU16, putU8] at enough
  | havePiece index => exact ⟨4, _, rfl, by decide⟩
  | bitfield bytes => exact ⟨5, _, rfl, by decide⟩
  | request index begin length => exact ⟨6, _, rfl, by decide⟩
  | piece index begin block => exact ⟨7, _, rfl, by decide⟩
  | cancel index begin length => exact ⟨8, _, rfl, by decide⟩

/-- The kind stands where the parser looks for the highest byte of the length. -/
theorem body_declares (message : Message) (enough : 4 ≤ (messageBody message).length) :
    2 ^ 26 ≤ MessageGrammar.declared (messageBody message) := by
  obtain ⟨kind, fields, parts, large⟩ := body_kind message enough
  rw [MessageGrammar.declared, parts]
  rw [parts] at enough
  have width : (fields.take 3).length = 3 := by
    rw [List.length_take]
    simp only [List.length_cons] at enough
    omega
  rw [List.take_succ_cons, BigEndian.decode, width]
  omega

theorem body_misread (profile : Profile) (message found : Message) (left : Bytes)
    (ordinary : Ordinary message)
    (parsed : Message.deserialize profile (messageBody message) = .ok (found, left)) :
    carriesPayload found = false := by
  have size := ordinary.2
  cases deserialize_parsed profile _ left found parsed with
  | keepAlive | havePiece | request | cancel | port => rfl
  | signal _ id len known =>
      simp only [List.mem_cons, Prod.mk.injEq, List.not_mem_nil, or_false] at known
      rcases known with ⟨-, rfl⟩ | ⟨-, rfl⟩ | ⟨-, rfl⟩ | ⟨-, rfl⟩ <;> rfl
  | bitfield id len known enough first nonzero kind =>
      have declared := body_declares message (by omega)
      rw [← MessageGrammar.declared_word _ len first] at declared
      omega
  | piece id len index begin rest known less enough first nonzero kind field field' =>
      have declared := body_declares message (by omega)
      rw [← MessageGrammar.declared_word _ len first] at declared
      rw [sub_exact profile 32 _ _ (by omega)] at less
      cases less
      omega

end Bodies

section Connection

def parsedFrom (profile : Profile) (bodies : List Bytes) : List Message :=
  bodies.filterMap fun body => ((Message.deserialize profile body).map Prod.fst).toOption

def bringsPayload : PeerEvent → Bool
  | .receivedBitfield _ | .receivedPiece _ _ _ => true
  | _ => false

/-- What a message raises does not depend on the state. -/
def raises (message : Message) : List PeerEvent := (handleMessage (PeerState.new none) message).2

theorem handle_raises (state : PeerState) (message : Message) :
    (handleMessage state message).2 = raises message := by
  cases message <;> rfl

/-- State and events come from the bodies read so far, and one that is no message ends
the connection. -/
structure Heard (profile : Profile) (conn : Connection) (log : List Effect) : Prop where
  state : conn.state = (parsedFrom profile (frames log)).foldl
    (fun state message => (handleMessage state message).1) (PeerState.new none)
  events : log.filterMap eventOf = (parsedFrom profile (frames log)).flatMap raises
  broken : ∀ body ∈ frames log, ∀ fault, Message.deserialize profile body = .error fault →
    conn.outcome = some (.ofFault fault)

theorem parsed_from_append (profile : Profile) (first second : List Bytes) :
    parsedFrom profile (first ++ second) = parsedFrom profile first ++ parsedFrom profile second :=
  List.filterMap_append

theorem heard_silent (profile : Profile) (conn after : Connection) (log effects : List Effect)
    (nothing : frames effects = []) (quiet : effects.filterMap eventOf = [])
    (same : after.state = conn.state) (live : conn.outcome = none)
    (heard : Heard profile conn log) : Heard profile after (log ++ effects) := by
  have parsed : frames (log ++ effects) = frames log := by
    rw [frames_append, nothing, List.append_nil]
  refine ⟨?_, ?_, fun body member fault failed => ?_⟩
  · rw [parsed, same]
    exact heard.state
  · rw [parsed, List.filterMap_append, quiet, List.append_nil]
    exact heard.events
  · rw [parsed] at member
    have ended := heard.broken body member fault failed
    rw [live] at ended
    cases ended

theorem heard_frame (profile : Profile) (conn finish : Connection) (log effects : List Effect)
    (heard : Heard profile conn log) (live : conn.outcome = none)
    (ended : finishRead profile conn = (finish, effects)) :
    Heard profile finish (log ++ effects) := by
  have emitted := (finish_read_frames profile conn finish effects ended).1
  have bodies : frames (log ++ effects) = frames log ++ [conn.buf] := by
    rw [frames_append, emitted]
  -- A body that was no message would have ended the connection.
  have intact : ∀ body ∈ frames log, ∀ fault,
      Message.deserialize profile body ≠ .error fault := by
    intro body member fault failed
    have broken := heard.broken body member fault failed
    rw [live] at broken
    cases broken
  unfold finishRead at ended
  cases parsed : Message.deserialize profile conn.buf with
  | error fault =>
      rw [parsed] at ended
      obtain ⟨rfl, rfl⟩ := Prod.mk.inj ended
      have nothing : parsedFrom profile [conn.buf] = [] := by
        simp [parsedFrom, parsed, Except.map, Except.toOption]
      refine ⟨?_, ?_, fun body member other failed => ?_⟩
      · rw [bodies, parsed_from_append, nothing, List.append_nil]
        exact heard.state
      · rw [bodies, parsed_from_append, nothing, List.append_nil, List.filterMap_append]
        exact (List.append_nil _).trans heard.events
      · rw [bodies] at member
        rcases List.mem_append.mp member with old | new
        · exact absurd failed (intact body old other)
        · obtain rfl := List.mem_singleton.mp new
          obtain rfl := Except.error.inj (parsed.symm.trans failed)
          rfl
  | ok pair =>
      obtain ⟨message, left⟩ := pair
      rw [parsed] at ended
      obtain ⟨rfl, rfl⟩ := Prod.mk.inj ended
      have next : parsedFrom profile [conn.buf] = [message] := by
        simp [parsedFrom, parsed, Except.map, Except.toOption]
      have events : ((handleMessage conn.state message).2.map Effect.event).filterMap eventOf =
          raises message := by
        rw [List.filterMap_map, handle_raises]
        exact List.filterMap_some
      refine ⟨?_, ?_, fun body member fault failed => ?_⟩
      · rw [bodies, parsed_from_append, next, List.foldl_append, ← heard.state]
        rfl
      · rw [bodies, parsed_from_append, next, List.flatMap_append, List.filterMap_append,
          heard.events, List.flatMap_singleton, ← events]
        rfl
      · rw [bodies] at member
        rcases List.mem_append.mp member with old | new
        · exact absurd failed (intact body old fault)
        · obtain rfl := List.mem_singleton.mp new
          rw [parsed] at failed
          cases failed

theorem heard_snoc (profile : Profile) (next : Turn) (conn after : Connection)
    (log effects : List Effect) (heard : Heard profile conn log)
    (turned : turn profile conn next = some (after, effects)) :
    Heard profile after (log ++ effects) := by
  obtain ⟨live, path⟩ := turn_turned profile conn after next effects turned
  cases path with
  | arrive | inPrefix | opened | inBody | commandsClosed | fails =>
      exact heard_silent profile conn _ log [] rfl rfl rfl live heard
  | emptyBody count lengthBuf _ _ there here full width ended =>
      have before : Heard profile
          { conn with inbound := conn.inbound.drop count, buf := [], reading := .body 0 } log :=
        ⟨heard.state, heard.events, heard.broken⟩
      exact heard_frame profile _ after log effects before live ended
  | finished count stale received _ _ there here full ended =>
      have before : Heard profile
          { conn with
            inbound := conn.inbound.drop count
            buf := ByteImage.overwrite conn.buf received (conn.inbound.take count)
            reading := .body (received + count) } log :=
        ⟨heard.state, heard.events, heard.broken⟩
      exact heard_frame profile _ after log effects before live ended
  | command command _ _ ran =>
      obtain ⟨nothing, -, -, -⟩ := command_frames _ after command effects ran
      obtain ⟨quiet, same, -⟩ := WiredProgram.command_turn profile conn after command effects turned
      exact heard_silent profile conn after log effects nothing quiet same live heard

theorem run_heard (profile : Profile) (bitfield : Option Bytes) (turns : List Turn)
    (conn : Connection) (log : List Effect)
    (ran : runFrom profile bitfield turns = some (conn, log)) : Heard profile conn log := by
  refine run_from_history profile bitfield turns (fun _ conn log => Heard profile conn log) ?_ ?_
    turns (List.prefix_refl turns) conn log ran
  · cases bitfield with
    | none => exact ⟨rfl, rfl, nofun⟩
    | some bytes => exact ⟨rfl, rfl, nofun⟩
  · intro past next conn log after effects _ _ heard turned
    exact heard_snoc profile next conn after log effects heard turned

def Short (message : Message) : Prop := (messageBody message).length < 4

theorem short_rejected (profile : Profile) (message : Message) (short : Short message) :
    Message.deserialize profile (messageBody message) = .error (.error .messageTooShort) :=
  if_pos short

theorem plain_message (state : PeerState) (message : Message)
    (plain : carriesPayload message = false) :
    (handleMessage state message).1.bitfield = state.bitfield ∧
      (handleMessage state message).1.downloaded = state.downloaded ∧
      ∀ event ∈ raises message, bringsPayload event = false := by
  cases message with
  | bitfield | piece => cases plain
  | keepAlive | choke | unChoke | interested | notInterested | havePiece | request | cancel |
    port => simp [handleMessage, raises, bringsPayload]

theorem plain_messages (messages : List Message) (state : PeerState)
    (plain : ∀ message ∈ messages, carriesPayload message = false) :
    (messages.foldl (fun state message => (handleMessage state message).1) state).bitfield =
        state.bitfield ∧
      (messages.foldl (fun state message => (handleMessage state message).1) state).downloaded =
        state.downloaded := by
  induction messages generalizing state with
  | nil => exact ⟨rfl, rfl⟩
  | cons message rest ih =>
      obtain ⟨bitfield, downloaded, -⟩ := plain_message state message
        (plain message List.mem_cons_self)
      obtain ⟨later, more⟩ := ih (handleMessage state message).1
        fun other member => plain other (List.mem_cons_of_mem message member)
      exact ⟨later.trans bitfield, more.trans downloaded⟩

theorem stream_serialized (messages : List Message)
    (fits : ∀ message ∈ messages, MessageFits message) :
    messages.flatMap Message.serialize = stream 4 (messages.map messageBody) := by
  rw [stream, List.flatMap_map]
  exact List.flatMap_congr fun message member => (serialize_framed message (fits message member)).1

theorem bodies_fit (messages : List Message)
    (fits : ∀ message ∈ messages, MessageFits message) :
    ∀ body ∈ messages.map messageBody, Fits 4 body := by
  intro body member
  obtain ⟨message, inside, rfl⟩ := List.mem_map.mp member
  exact (serialize_framed message (fits message inside)).2

/-- However the bytes of ordinary messages come in, a connection whose reads are not torn
reads the bodies one by one, hears no bitfield and no block in any of them, and fails at
the first message with less than four bytes behind its length. -/
theorem ordinary_session (profile : Profile) (bitfield : Option Bytes) (turns : List Turn)
    (messages : List Message) (ordinary : ∀ message ∈ messages, Ordinary message)
    (whole : arrived turns <+: messages.flatMap Message.serialize)
    (untorn : Untorn profile bitfield turns) (conn : Connection) (log : List Effect)
    (ran : runFrom profile bitfield turns = some (conn, log)) :
    conn.state.bitfield = none ∧ conn.state.downloaded = 0 ∧
      (∀ event, .event event ∈ log → bringsPayload event = false) ∧
      ∃ count ≤ messages.length, frames log = (messages.take count).map messageBody ∧
        ∀ message ∈ messages.take count, Short message →
          conn.outcome = some (.returned (.error (.message .messageTooShort))) := by
  have fits : ∀ message ∈ messages, MessageFits message := fun message member =>
    (ordinary message member).1
  rw [stream_serialized messages fits] at whole
  obtain ⟨count, within, parsed, -⟩ := run_tracks profile bitfield turns
    (messages.map messageBody) conn log (bodies_fit messages fits) whole untorn ran
  have heard := run_heard profile bitfield turns conn log ran
  rw [← List.map_take] at parsed
  have plain : ∀ found ∈ parsedFrom profile (frames log), carriesPayload found = false := by
    intro found member
    obtain ⟨body, inside, made⟩ := List.mem_filterMap.mp member
    rw [parsed] at inside
    obtain ⟨message, taken, rfl⟩ := List.mem_map.mp inside
    cases same : Message.deserialize profile (messageBody message) with
    | error fault => simp [same, Except.map, Except.toOption] at made
    | ok pair =>
        obtain rfl : pair.1 = found := by
          simpa [same, Except.map, Except.toOption] using made
        exact body_misread profile message pair.1 pair.2
          (ordinary message (List.mem_of_mem_take taken)) same
  obtain ⟨unshared, nothing⟩ := plain_messages _ (PeerState.new none) plain
  rw [← heard.state] at unshared nothing
  refine ⟨unshared, nothing, fun event member => ?_, count, by simpa using within, parsed,
    fun message taken short => ?_⟩
  · have raised : event ∈ log.filterMap eventOf := List.mem_filterMap.mpr ⟨_, member, rfl⟩
    rw [heard.events] at raised
    obtain ⟨message, among, inside⟩ := List.mem_flatMap.mp raised
    exact (plain_message (PeerState.new none) message (plain message among)).2.2 event inside
  · apply heard.broken (messageBody message) ?_ _ (short_rejected profile message short)
    rw [parsed]
    exact List.mem_map_of_mem taken

/-- A bitfield comes in by portions and is heard as interest; the choke behind it ends the
connection. -/
def greetingArrives : List Turn :=
  [.arrive ((Message.bitfield [255, 0, 0, 2]).serialize ++ Message.choke.serialize),
    .poll 4 [0, 0, 0, 0, 0], .poll 2 [], .poll 3 [], .poll 4 [0], .poll 1 []]

theorem ordinary_session_greeting :
    ∃ conn log, runFrom .wrapping none greetingArrives = some (conn, log) ∧
      conn.state.peerInterested = true ∧
      frames log = [[5, 255, 0, 0, 2], [0]] ∧
      conn.state.bitfield = none ∧ conn.state.downloaded = 0 ∧
      (∀ event, .event event ∈ log → bringsPayload event = false) ∧
      ∃ count ≤ 2, frames log =
          ([.bitfield [255, 0, 0, 2], .choke].take count : List Message).map messageBody ∧
        ∀ message ∈ ([.bitfield [255, 0, 0, 2], .choke].take count : List Message),
          Short message → conn.outcome = some (.returned (.error (.message .messageTooShort))) := by
  refine ⟨_, _, rfl, rfl, rfl, ordinary_session .wrapping none greetingArrives
    [.bitfield [255, 0, 0, 2], .choke] ?_ ?_ ?_ _ _ rfl⟩
  · intro message member
    rcases List.mem_pair.mp member with rfl | rfl
    · exact ⟨by simp [MessageFits], by decide⟩
    · exact ⟨trivial, by decide⟩
  · decide
  · intro past command conn log began
    have inside := began.subset (List.mem_append_right past List.mem_cons_self)
    simp [greetingArrives] at inside

end Connection

section Starving
open TorrentMeta PieceStore Downloads DownloadSafety PeerTasks Program PeerTracking Relay
open Toolkit.HashTable (lookup_modify_some)

variable (sha1 : Bytes → Hash)

def Unshared (peers : Peers) : Prop :=
  ∀ peerIp sender record, peers.lookup peerIp = some (sender, record) → record = none

def Payless : Call → Prop
  | .event event _ _ => bringsPayload event = false
  | .addPeer _ _ | .removePeer _ | .setDiskIo => True

theorem unshared_unchoke (choice : Choice) (manager : DownloadManager) (peerIp : PeerIp)
    (unshared : Unshared manager.peers) : handleUnchoke choice manager peerIp = (manager, []) := by
  have nothing : getPeerAvailablePieces manager peerIp = [] := by
    unfold getPeerAvailablePieces
    split
    · rename_i sender bitfield known
      cases unshared peerIp sender _ known
    · rfl
    · rfl
  rw [handleUnchoke, requestPiecesFromPeer, nothing]
  rfl

theorem unshared_erase (peers : Peers) (peerIp : PeerIp) (unshared : Unshared peers) :
    Unshared (peers.erase peerIp) := by
  intro other sender record known
  by_cases same : other = peerIp
  · rw [same, AList.lookup_erase] at known
    cases known
  · rw [AList.lookup_erase_ne same] at known
    exact unshared other sender record known

theorem payless_step (manager after : DownloadManager) (call : Call) (actions : List Action)
    (payless : Payless call) (unshared : Unshared manager.peers)
    (performed : perform sha1 manager call = (after, actions)) :
    Unshared after.peers ∧ after.pieceManager = manager.pieceManager ∧ actions = [] := by
  cases call with
  | addPeer peerIp sender =>
      obtain ⟨rfl, rfl⟩ := Prod.mk.inj performed
      refine ⟨fun other origin record known => ?_, rfl, rfl⟩
      by_cases same : other = peerIp
      · subst same
        rw [addPeer, AList.lookup_insert] at known
        cases known
        rfl
      · rw [addPeer, AList.lookup_insert_ne same] at known
        exact unshared other origin record known
  | removePeer peerIp =>
      obtain ⟨rfl, rfl⟩ := Prod.mk.inj performed
      exact ⟨unshared_erase manager.peers peerIp unshared, rfl, rfl⟩
  | setDiskIo =>
      obtain ⟨rfl, rfl⟩ := Prod.mk.inj performed
      exact ⟨unshared, rfl, rfl⟩
  | event event peerIp choice =>
      cases event with
      | receivedBitfield | receivedPiece => cases payless
      | peerUnchoked =>
          obtain ⟨rfl, rfl⟩ := Prod.mk.inj
            ((unshared_unchoke choice manager peerIp unshared).symm.trans performed)
          exact ⟨unshared, rfl, rfl⟩
      | receivedHave index =>
          obtain ⟨rfl, rfl⟩ := Prod.mk.inj performed
          refine ⟨fun other origin record known => ?_, rfl, rfl⟩
          rcases lookup_modify_some _ _ _ _ _ known with ⟨rfl, old, there, same⟩ | ⟨-, there⟩
          · obtain ⟨rfl, rfl⟩ := Prod.mk.inj same
            rw [unshared other old.1 old.2 there]
            rfl
          · exact unshared other origin record there
      | peerDisconnected =>
          obtain ⟨rfl, rfl⟩ := Prod.mk.inj performed
          exact ⟨unshared_erase manager.peers peerIp unshared, rfl, rfl⟩
      | peerChoked | peerInterested | peerNotInterested | requestedBlock | downloadRate =>
          obtain ⟨rfl, rfl⟩ := Prod.mk.inj performed
          exact ⟨unshared, rfl, rfl⟩

theorem payless_run (manager finish : DownloadManager) (unshared : Unshared manager.peers)
    (calls : List Call) (actions : List Action) (payless : ∀ call ∈ calls, Payless call)
    (ran : run (downloads sha1) manager calls = some (finish, actions)) :
    Unshared finish.peers ∧ finish.pieceManager = manager.pieceManager ∧ actions = [] := by
  refine run_history (downloads sha1) manager calls
    (fun _ state log => Unshared state.peers ∧ state.pieceManager = manager.pieceManager ∧ log = [])
    ⟨unshared, rfl, rfl⟩ ?_ calls (List.prefix_refl calls) finish actions ran
  rintro past call state log next emitted began - ⟨blank, kept, rfl⟩ moved
  obtain ⟨later, same, rfl⟩ := payless_step sha1 state next call emitted
    (payless call (began.subset (List.mem_append_right past List.mem_cons_self))) blank
    (Option.some.inj moved)
  exact ⟨later, same.trans kept, rfl⟩

theorem tasked_raises (link after : Link) (act : TaskAct) (notes : List TaskNote)
    (tasked : Tasked link act after notes) (event : PeerEvent) (raised : .raised event ∈ notes) :
    ∃ message, act = .read message ∧ event ∈ raises message := by
  cases tasked with
  | read session message there selects =>
      obtain ⟨other, member, same⟩ := List.mem_map.mp raised
      obtain rfl := TaskNote.raised.inj same
      rw [handle_raises] at member
      exact ⟨message, rfl, member⟩
  | take session command rest there selects taken => simp at raised
  | connected | refused | greet | emit | ended | receive | drained => simp at raised

theorem raised_read (manager : DownloadManager) (acts : List Act) (finish : Swarm)
    (log : List Note) (ran : run (program sha1) (Swarm.new manager) acts = some (finish, log))
    (sender : Sender) (event : PeerEvent) (raised : event ∈ raisedBy sender log) :
    ∃ message, .task sender (.read message) ∈ acts ∧ event ∈ raises message := by
  refine run_history (program sha1) (Swarm.new manager) acts
    (fun past _ log => ∀ event ∈ raisedBy sender log,
      ∃ message, .task sender (.read message) ∈ past ∧ event ∈ raises message)
    nofun ?_ acts (List.prefix_refl acts) finish log ran event raised
  intro past act before said after notes _ _ earlier moved event member
  rw [raised_by_append] at member
  rcases List.mem_append.mp member with old | new
  · obtain ⟨message, read, inside⟩ := earlier event old
    exact ⟨message, List.mem_append_left [act] read, inside⟩
  · cases step_stepped sha1 before after act notes moved with
    | tasked origin act link changed turn there tasked =>
        rw [raised_by_task] at new
        split at new
        · rename_i mine
          subst mine
          obtain ⟨note, inside, same⟩ := List.mem_filterMap.mp new
          cases note with
          | serialized => cases same
          | raised other =>
              obtain rfl := Option.some.inj same
              obtain ⟨message, rfl, from_it⟩ := tasked_raises link changed act turn tasked other
                inside
              exact ⟨message, List.mem_append_right past List.mem_cons_self, from_it⟩
        · cases new
    | added | registered | started | closed | abandoned | handled | sent | refused | checked |
      forwarded => cases new

/-- A program that never reads a bitfield or a block requests and stores nothing, and every
connection only shares the bitfield it was given. -/
theorem plain_reads_starve (manager : DownloadManager) (unregistered : manager.peers = ∅)
    (acts : List Act) (plain : ∀ sender message, .task sender (.read message) ∈ acts →
      carriesPayload message = false)
    (finish : Swarm) (log : List Note)
    (ran : run (program sha1) (Swarm.new manager) acts = some (finish, log)) :
    Unshared finish.manager.peers ∧ finish.manager.pieceManager = manager.pieceManager ∧
      ∀ (sender : Sender) (link : Link), finish.peerManager.links[sender]? = some link →
        serializedBy sender log = greeted link ∧ link.commands.queue = [] := by
  obtain ⟨calls, actions, goes, taken, -, -, queued, speaks, -⟩ :=
    run_relayed acts sha1 manager unregistered finish log ran
  have payless : ∀ call ∈ calls, Payless call := by
    intro call member
    cases call with
    | addPeer | removePeer | setDiskIo => trivial
    | event event peerIp choice =>
        have handled : (event, peerIp) ∈ calls.filterMap Relay.eventOf :=
          List.mem_filterMap.mpr ⟨_, member, rfl⟩
        rw [taken] at handled
        obtain ⟨delivery, inside, same⟩ := List.mem_map.mp handled
        obtain ⟨rfl, rfl⟩ := Prod.mk.inj same
        have enqueued : delivery.event ∈ enqueuedBy delivery.origin log := by
          rw [← enqueued_events, queued]
          exact List.mem_filterMap.mpr ⟨delivery, List.mem_append_left _ inside, if_pos rfl⟩
        obtain ⟨message, read, raised⟩ := raised_read sha1 manager acts finish log ran
          delivery.origin delivery.event
          ((enqueued_first sha1 manager acts finish log ran delivery.origin).subset enqueued)
        exact (plain_message (PeerState.new none) message
          (plain delivery.origin message read)).2.2 _ raised
  have blank : Unshared manager.peers := by
    intro peerIp sender record known
    rw [unregistered] at known
    cases known
  obtain ⟨unshared, kept, rfl⟩ := payless_run sha1 manager finish.manager blank calls actions
    payless goes
  refine ⟨unshared, kept, fun sender link there => ?_⟩
  obtain ⟨-, -, past, lost, said, issued, -⟩ := speaks sender link there
  obtain ⟨rfl, rest⟩ := List.append_eq_nil_iff.mp issued.symm
  exact ⟨said.trans (List.append_nil _), (List.append_eq_nil_iff.mp rest).1⟩

end Starving

section Streams
open TorrentMeta PieceStore Downloads DownloadSafety PeerTasks Program PeerTracking Relay
  WiredProgram

def Uncommanded (log : List WiredNote) : Prop :=
  ∀ sender command, .command command ∉ turnsOf sender log

/-- What comes in for each connection is the beginning of ordinary messages. -/
def ToldOrdinary (acts : List WiredAct) : Prop :=
  ∀ sender, ∃ messages : List Message, (∀ message ∈ messages, Ordinary message) ∧
    bytesTo sender acts <+: messages.flatMap Message.serialize

theorem told_began (past acts : List WiredAct) (began : past <+: acts)
    (told : ToldOrdinary acts) : ToldOrdinary past := by
  intro sender
  obtain ⟨messages, ordinary, arrives⟩ := told sender
  obtain ⟨rest, rfl⟩ := began
  refine ⟨messages, ordinary, List.IsPrefix.trans ⟨bytesTo sender rest, ?_⟩ arrives⟩
  exact List.flatMap_append.symm

theorem news_ordinary : ToldOrdinary newsComes := by
  intro sender
  by_cases first : sender = 0
  · subst first
    refine ⟨[.havePiece 257], fun message member => ?_, List.prefix_refl _⟩
    obtain rfl := List.mem_singleton.mp member
    exact ⟨trivial, by decide⟩
  · refine ⟨[], nofun, ?_⟩
    rw [show bytesTo sender newsComes = [] by
      simp [bytesTo, newsComes, Ne.symm first]]
    exact List.prefix_refl []

theorem untorn_uncommanded (profile : Profile) (bitfield : Option Bytes) (turns : List Turn)
    (silent : ∀ command, .command command ∉ turns) : Untorn profile bitfield turns := by
  intro past command conn log began
  exact (silent command
    (began.subset (List.mem_append_right past List.mem_cons_self))).elim

theorem lies_heard (profile : Profile) (link : Option Link) (conn : Option Connection)
    (turns : List Turn) (effects : List Effect) (lies : Lies profile link conn turns effects)
    (silent : ∀ command, .command command ∉ turns) (messages : List Message)
    (fits : ∀ message ∈ messages, MessageFits message)
    (told : arrived turns <+: messages.flatMap Message.serialize) (body : Bytes)
    (heard : body ∈ frames effects) : ∃ message ∈ messages, messageBody message = body := by
  cases lies with
  | absent | connecting | opening => cases heard
  | talking link session loop _ _ begun stands shared ran live same =>
      rw [stream_serialized messages fits] at told
      obtain ⟨count, -, parsed, -⟩ := run_tracks profile link.bitfield turns
        (messages.map messageBody) loop effects (bodies_fit messages fits) told
        (untorn_uncommanded profile link.bitfield turns silent) ran
      rw [parsed, ← List.map_take] at heard
      obtain ⟨message, inside, same⟩ := List.mem_map.mp heard
      exact ⟨message, List.mem_of_mem_take inside, same⟩

theorem lies_written (profile : Profile) (link : Option Link) (conn : Option Connection)
    (turns : List Turn) (effects : List Effect) (lies : Lies profile link conn turns effects)
    (silent : ∀ command, .command command ∉ turns) :
    OutboundStream.written effects = (link.elim [] greeted).flatMap Message.serialize := by
  cases lies with
  | absent => rfl
  | connecting link unconnected => simp [greeted, unconnected]
  | opening link session bitfield begun stands unshared => simp [greeted, stands, unshared]
  | talking link session loop _ _ begun stands shared ran live same =>
      have opened : OutboundStream.written effects =
          OutboundStream.written (sendBitfield Connection.new link.bitfield).2 := by
        refine run_from_history profile link.bitfield turns (fun _ _ log =>
          OutboundStream.written log = OutboundStream.written
            (sendBitfield Connection.new link.bitfield).2) rfl ?_ turns (List.prefix_refl turns)
          loop effects ran
        intro past next conn log after more began _ written turned
        have mute : OutboundStream.sentMessage next = none := by
          cases next with
          | command command =>
              exact (silent command
                (began.subset (List.mem_append_right past List.mem_cons_self))).elim
          | arrive | poll | commandsClosed | fails => rfl
        rw [OutboundStream.written_append, written,
          OutboundStream.turn_written profile conn after next more turned, mute, List.append_nil]
      rw [opened, Option.elim_some, greeted, stands]
      simp only [shared, Option.isSome_none, Bool.false_eq_true, if_false]
      cases link.bitfield with
      | none => rfl
      | some bytes =>
          simp [sendBitfield, sendMessage, Connection.new, OutboundStream.written,
            OutboundStream.sentBytes, Message.serialize]

section Runs

variable (profile : Profile) (sha1 : Bytes → Hash) (manager : DownloadManager)
  (unregistered : manager.peers = ∅)
include unregistered

theorem uncommanded_starve (acts : List WiredAct) (told : ToldOrdinary acts) (finish : Wired)
    (log : List WiredNote) (silent : Uncommanded log)
    (ran : run (wired profile sha1) (Wired.new manager) acts = some (finish, log)) :
    Unshared finish.swarm.manager.peers ∧
      finish.swarm.manager.pieceManager = manager.pieceManager ∧
      ∀ (sender : Sender) (link : Link), finish.swarm.peerManager.links[sender]? = some link →
        serializedBy sender (notesOf log) = greeted link ∧ link.commands.queue = [] := by
  have under := run_under profile sha1 manager acts finish log ran
  obtain ⟨plain, goes, parsed⟩ := run_projects profile sha1 manager acts finish log ran
  refine plain_reads_starve sha1 manager unregistered plain ?_ finish.swarm (notesOf log) goes
  intro sender found read
  obtain ⟨messages, ordinary, arrives⟩ := told sender
  obtain ⟨body, heard, left, made⟩ := parsed sender found read
  rw [← under.arrives sender] at arrives
  obtain ⟨message, inside, rfl⟩ := lies_heard profile _ _ _ _ (under.lies sender) (silent sender)
    messages (fun message member => (ordinary message member).1) arrives body heard
  exact body_misread profile message found left (ordinary message inside) made

/-- No command is ever taken, since none is ever sent. -/
theorem run_uncommanded (acts : List WiredAct) (told : ToldOrdinary acts) (finish : Wired)
    (log : List WiredNote)
    (ran : run (wired profile sha1) (Wired.new manager) acts = some (finish, log)) :
    Uncommanded log := by
  refine run_history (wired profile sha1) (Wired.new manager) acts
    (fun _ _ log => Uncommanded log) (fun _ _ => List.not_mem_nil) ?_ acts (List.prefix_refl acts)
    finish log ran
  intro past act before said after notes began reached silent stepped sender command
  obtain ⟨-, -, idle⟩ := uncommanded_starve profile sha1 manager unregistered past
    (told_began past acts ((List.prefix_append past [act]).trans began) told) before said silent
    reached
  rw [turns_of_append, List.mem_append]
  rintro (old | new)
  · exact silent sender command old
  · cases wired_step_moved profile sha1 before after act notes stepped with
    | arrived | polled => simp at new
    | parsed => simp [turns_of_append] at new
    | other => simp at new
    | tasked origin task link conn turns effects swarm emitted there beneath went =>
        rw [turns_of_append, turns_of_labels, turns_of_notes, List.append_nil] at new
        split at new
        · obtain ⟨rest, queued⟩ :=
            underneath_commanded profile link _ conn task turns effects beneath command new
          rw [(idle origin link there).2] at queued
          cases queued
        · cases new

/-- The program among peers that send ordinary messages, byte by byte and in any
interleaving: no block is ever requested or stored, no peer's pieces are ever known, and
every connection writes the bitfield it was given to share and not a byte more. -/
theorem ordinary_peers_starve (acts : List WiredAct) (told : ToldOrdinary acts) (finish : Wired)
    (log : List WiredNote)
    (ran : run (wired profile sha1) (Wired.new manager) acts = some (finish, log)) :
    finish.swarm.manager.pieceManager = manager.pieceManager ∧
      (∀ peerIp sender record,
        finish.swarm.manager.peers.lookup peerIp = some (sender, record) → record = none) ∧
      ∀ (sender : Sender) (link : Link), finish.swarm.peerManager.links[sender]? = some link →
        link.commands.queue = [] ∧
        OutboundStream.written (effectsOf sender log) =
          (greeted link).flatMap Message.serialize := by
  have silent := run_uncommanded profile sha1 manager unregistered acts told finish log ran
  obtain ⟨unshared, kept, idle⟩ :=
    uncommanded_starve profile sha1 manager unregistered acts told finish log silent ran
  refine ⟨kept, unshared, fun sender link there => ⟨(idle sender link there).2, ?_⟩⟩
  have lies := (run_under profile sha1 manager acts finish log ran).lies sender
  rw [there] at lies
  exact lies_written profile (some link) _ _ _ lies (silent sender)

end Runs

theorem ordinary_peers_starve_news :
    ∃ finish log, run (wired .wrapping zeroHash) (Wired.new smallManager) newsComes =
        some (finish, log) ∧ handledIn (notesOf log) = [⟨.peerUnchoked, default, 0⟩] ∧
      finish.swarm.manager.pieceManager = smallManager.pieceManager ∧
      (∀ peerIp sender record,
        finish.swarm.manager.peers.lookup peerIp = some (sender, record) → record = none) ∧
      ∀ (sender : Sender) (link : Link), finish.swarm.peerManager.links[sender]? = some link →
        link.commands.queue = [] ∧
        OutboundStream.written (effectsOf sender log) =
          (greeted link).flatMap Message.serialize :=
  ⟨_, _, rfl, rfl, ordinary_peers_starve .wrapping zeroHash smallManager rfl newsComes
    news_ordinary _ _ rfl⟩

end Streams

end MotteSeed.Misreading
