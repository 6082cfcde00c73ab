import MotteSeed.InboundStream
import MotteSeed.OutboundStream
import MotteSeed.Relay

/-! The program down to the bytes: under every connection task lies the stream that its loop
reads and writes, so that a message is read only when its bytes have come in and the parser
has accepted them. Seen message by message it is the program, and seen at one connection it
is the loop of that connection. -/
namespace MotteSeed.WiredProgram
open Toolkit Toolkit.Checked Toolkit.Runs Toolkit.Channels PeerWire PeerConnection InboundStream
  TorrentMeta PieceStore Downloads PeerTasks Program PeerTracking Relay

section Machine

/-- `streams` has the loop of every connection that stands. -/
structure Wired where
  swarm : Swarm
  streams : Sender → Option Connection

def Wired.new (manager : DownloadManager) : Wired := ⟨Swarm.new manager, fun _ => none⟩

inductive WiredAct where
  | arrive (sender : Sender) (bytes : Bytes)
  | poll (sender : Sender) (count : Nat) (stale : Bytes)
  | act (act : Act)

inductive WiredNote where
  | note (note : Note)
  | turned (sender : Sender) (turn : Turn)
  | effect (sender : Sender) (effect : Effect)

/-- What the loop comes to with a body that is whole. -/
def parsedAct (profile : Profile) (body : Bytes) : TaskAct :=
  match Message.deserialize profile body with
  | .ok (message, _) => .read message
  | .error (.error reason) => .fails (.message reason)
  | .error .overflow | .error .bounds => .panics

/-- The turn of the loop that goes with an act of the connection task, if there is one. While
the bitfield is still to be shared the loop has not begun. -/
def turnOf (link : Link) (session : Session) (act : TaskAct) : Option Turn :=
  match session.greeting, act with
  | some _, _ => none
  | none, .take => link.commands.recv.map fun received => .command received.1
  | none, .commandsClosed => some .commandsClosed
  | none, .fails reason => some (.fails reason)
  | none, _ => none

/-- An act of the connection task at its stream. Messages, panics and the errors of the
parser are left to the bytes. -/
def underneath (profile : Profile) (link : Link) (conn : Option Connection) (act : TaskAct) :
    Option (Option Connection × List Turn × List Effect) :=
  match act, link.session, conn with
  | .read _, _, _ | .panics, _, _ | .fails (.message _), _, _ => none
  | .connected, _, _ => some (some Connection.new, [], [])
  | .greet, some session, some conn =>
      let sent := sendBitfield conn session.greeting
      some (some sent.1, [], sent.2)
  | act, some session, some conn =>
      match turnOf link session act with
      | some next => (turn profile conn next).map fun moved => (some moved.1, [next], moved.2)
      | none => some (some conn, [], [])
  | _, _, conn => some (conn, [], [])

def labels (sender : Sender) (turns : List Turn) (effects : List Effect) : List WiredNote :=
  turns.map (.turned sender) ++ effects.map (.effect sender)

def Wired.setStream (wired : Wired) (sender : Sender) (conn : Option Connection) : Wired :=
  { wired with streams := Function.update wired.streams sender conn }

def wiredStep (profile : Profile) (sha1 : Bytes → Hash) (wired : Wired) :
    WiredAct → Option (Wired × List WiredNote)
  | .arrive sender bytes =>
      match (wired.swarm.peerManager.links[sender]?).bind Link.session, wired.streams sender with
      | some session, some conn =>
          -- What comes in earlier is taken note of when the loop begins.
          if session.outcome.isNone ∧ session.greeting.isNone then
            (turn profile conn (.arrive bytes)).map fun moved =>
              (wired.setStream sender (some moved.1), labels sender [.arrive bytes] moved.2)
          else none
      | _, _ => none
  | .poll sender count stale =>
      match (wired.swarm.peerManager.links[sender]?).bind Link.session, wired.streams sender with
      | some session, some conn =>
          if session.selects then
            match turn profile conn (.poll count stale) with
            | some (after, effects) =>
                let said := labels sender [.poll count stale] effects
                match frames effects with
                | [] => some (wired.setStream sender (some after), said)
                | body :: _ =>
                    (step sha1 wired.swarm (.task sender (parsedAct profile body))).map fun moved =>
                      ({ wired.setStream sender (some after) with swarm := moved.1 },
                        said ++ moved.2.map .note)
            | none => none
          else none
      | _, _ => none
  | .act (.task sender act) =>
      match wired.swarm.peerManager.links[sender]? with
      | some link =>
          match underneath profile link (wired.streams sender) act with
          | some (conn, turns, effects) =>
              (step sha1 wired.swarm (.task sender act)).map fun moved =>
                ({ wired.setStream sender conn with swarm := moved.1 },
                  labels sender turns effects ++ moved.2.map .note)
          | none => none
      | none => none
  | .act act =>
      (step sha1 wired.swarm act).map fun moved =>
        ({ wired with swarm := moved.1 }, moved.2.map .note)

def wired (profile : Profile) (sha1 : Bytes → Hash) : Machine Wired WiredAct WiredNote :=
  ⟨wiredStep profile sha1⟩

inductive Moved (profile : Profile) (sha1 : Bytes → Hash) (before : Wired) :
    WiredAct → Wired → List WiredNote → Prop where
  | arrived (sender : Sender) (bytes : Bytes) (link : Link) (session : Session)
      (conn after : Connection) (effects : List Effect)
      (there : before.swarm.peerManager.links[sender]? = some link)
      (stands : link.session = some session) (held : before.streams sender = some conn)
      (greeted : session.greeting = none)
      (turned : turn profile conn (.arrive bytes) = some (after, effects)) :
      Moved profile sha1 before (.arrive sender bytes) (before.setStream sender (some after))
        (labels sender [.arrive bytes] effects)
  | polled (sender : Sender) (count : Nat) (stale : Bytes) (link : Link) (session : Session)
      (conn after : Connection) (effects : List Effect)
      (there : before.swarm.peerManager.links[sender]? = some link)
      (stands : link.session = some session) (held : before.streams sender = some conn)
      (selects : session.selects = true)
      (turned : turn profile conn (.poll count stale) = some (after, effects))
      (partly : frames effects = []) :
      Moved profile sha1 before (.poll sender count stale) (before.setStream sender (some after))
        (labels sender [.poll count stale] effects)
  | parsed (sender : Sender) (count : Nat) (stale : Bytes) (link : Link) (session : Session)
      (conn after : Connection) (effects : List Effect) (body : Bytes) (rest : List Bytes)
      (swarm : Swarm) (notes : List Note)
      (there : before.swarm.peerManager.links[sender]? = some link)
      (stands : link.session = some session) (held : before.streams sender = some conn)
      (selects : session.selects = true)
      (turned : turn profile conn (.poll count stale) = some (after, effects))
      (whole : frames effects = body :: rest)
      (stepped : step sha1 before.swarm (.task sender (parsedAct profile body)) =
        some (swarm, notes)) :
      Moved profile sha1 before (.poll sender count stale)
        { before.setStream sender (some after) with swarm := swarm }
        (labels sender [.poll count stale] effects ++ notes.map .note)
  | tasked (sender : Sender) (act : TaskAct) (link : Link) (conn : Option Connection)
      (turns : List Turn) (effects : List Effect) (swarm : Swarm) (notes : List Note)
      (there : before.swarm.peerManager.links[sender]? = some link)
      (under : underneath profile link (before.streams sender) act = some (conn, turns, effects))
      (stepped : step sha1 before.swarm (.task sender act) = some (swarm, notes)) :
      Moved profile sha1 before (.act (.task sender act))
        { before.setStream sender conn with swarm := swarm }
        (labels sender turns effects ++ notes.map .note)
  | other (act : Act) (swarm : Swarm) (notes : List Note)
      (apart : ∀ sender task, act ≠ .task sender task)
      (stepped : step sha1 before.swarm act = some (swarm, notes)) :
      Moved profile sha1 before (.act act) { before with swarm := swarm } (notes.map .note)

theorem wired_step_moved (profile : Profile) (sha1 : Bytes → Hash) (before after : Wired)
    (act : WiredAct) (notes : List WiredNote)
    (moved : wiredStep profile sha1 before act = some (after, notes)) :
    Moved profile sha1 before act after notes := by
  cases act with
  | arrive sender bytes =>
      simp only [wiredStep] at moved
      split at moved
      · rename_i session conn stands held
        obtain ⟨link, there, talks⟩ := Option.bind_eq_some_iff.mp stands
        split at moved
        · rename_i able
          obtain ⟨⟨next, effects⟩, turned, same⟩ := Option.map_eq_some_iff.mp moved
          obtain ⟨rfl, rfl⟩ := Prod.mk.inj same
          exact .arrived sender bytes link session conn next effects there talks held
            (Option.isNone_iff_eq_none.mp able.2) turned
        · cases moved
      · cases moved
  | poll sender count stale =>
      simp only [wiredStep] at moved
      split at moved
      · rename_i session conn stands held
        obtain ⟨link, there, talks⟩ := Option.bind_eq_some_iff.mp stands
        split at moved
        · rename_i selects
          split at moved
          · rename_i next effects turned
            split at moved
            · rename_i partly
              obtain ⟨rfl, rfl⟩ := Prod.mk.inj (Option.some.inj moved)
              exact .polled sender count stale link session conn next effects there talks held
                selects turned partly
            · rename_i body rest whole
              obtain ⟨⟨swarm, said⟩, stepped, same⟩ := Option.map_eq_some_iff.mp moved
              obtain ⟨rfl, rfl⟩ := Prod.mk.inj same
              exact .parsed sender count stale link session conn next effects body rest swarm said
                there talks held selects turned whole stepped
          · cases moved
        · cases moved
      · cases moved
  | act act =>
      cases act with
      | task sender act =>
          simp only [wiredStep] at moved
          split at moved
          · rename_i link there
            split at moved
            · rename_i conn turns effects under
              obtain ⟨⟨swarm, said⟩, stepped, same⟩ := Option.map_eq_some_iff.mp moved
              obtain ⟨rfl, rfl⟩ := Prod.mk.inj same
              exact .tasked sender act link conn turns effects swarm said there under stepped
            · cases moved
          · cases moved
      | addPeer | register | start | closeReceiver | forward | handle | send | check =>
          simp only [wiredStep] at moved
          obtain ⟨⟨swarm, said⟩, stepped, same⟩ := Option.map_eq_some_iff.mp moved
          obtain ⟨rfl, rfl⟩ := Prod.mk.inj same
          exact .other _ swarm said nofun stepped

end Machine

section Turns

def keepsRunning : TaskAct → Bool
  | .commandsClosed | .emit | .fails _ | .panics => false
  | _ => true

theorem keeps_running (held : Bool) (link after : Link) (act : TaskAct) (notes : List TaskNote)
    (keeps : keepsRunning act = true) (stepped : taskStep held link act = some (after, notes))
    (session : Session) (stands : after.session = some session) :
    session.outcome = none ∨ link.session = some session := by
  cases act with
  | commandsClosed | emit | fails | panics => cases keeps
  | connected =>
      obtain ⟨-, rfl, -⟩ : link.forwarder = .connecting ∧ _ ∧ _ := by
        simpa [taskStep] using stepped
      obtain rfl := Option.some.inj stands
      exact Or.inl rfl
  | refused =>
      obtain ⟨-, rfl, -⟩ : link.forwarder = .connecting ∧ _ ∧ _ := by
        simpa [taskStep] using stepped
      exact Or.inr stands
  | receive =>
      simp only [taskStep] at stepped
      split at stepped
      · obtain ⟨received, -, same⟩ := Option.map_eq_some_iff.mp stepped
        obtain ⟨rfl, -⟩ := Prod.mk.inj same
        exact Or.inr stands
      · cases stepped
  | drained =>
      simp only [taskStep] at stepped
      split at stepped
      · split at stepped
        · obtain ⟨rfl, -⟩ := Prod.mk.inj (Option.some.inj stepped)
          exact Or.inr stands
        · cases stepped
      · cases stepped
  | greet =>
      simp only [taskStep] at stepped
      split at stepped
      · simp only [sessionStep] at stepped
        split at stepped
        · rename_i running unshared
          obtain ⟨rfl, -⟩ := Prod.mk.inj (Option.some.inj stepped)
          obtain rfl := Option.some.inj stands
          exact Or.inl running
        · cases stepped
      · cases stepped
  | take =>
      simp only [taskStep] at stepped
      split at stepped
      · simp only [sessionStep] at stepped
        split at stepped
        · rename_i selects
          split at stepped
          · obtain ⟨rfl, -⟩ := Prod.mk.inj (Option.some.inj stepped)
            obtain rfl := Option.some.inj stands
            exact Or.inl ((selects_iff _).mp selects).1
          · cases stepped
        · cases stepped
      · cases stepped
  | read message =>
      simp only [taskStep] at stepped
      split at stepped
      · simp only [sessionStep] at stepped
        split at stepped
        · rename_i selects
          obtain ⟨rfl, -⟩ := Prod.mk.inj (Option.some.inj stepped)
          obtain rfl := Option.some.inj stands
          exact Or.inl ((selects_iff _).mp selects).1
        · cases stepped
      · cases stepped

theorem running_not_ended (held : Bool) (link : Link) (act : TaskAct) (notes : List TaskNote)
    (session : Session) (outcome : Outcome) (there : link.session = some session)
    (running : session.outcome = none) (keeps : keepsRunning act = true) :
    taskStep held link act ≠ some (link.withSession (session.ended outcome), notes) := by
  intro stepped
  rcases keeps_running held link _ act notes keeps stepped _ rfl with live | same
  · cases live
  · rw [Option.some.inj (there.symm.trans same)] at running
    cases running

theorem arrive_turn (profile : Profile) (conn after : Connection) (bytes : Bytes)
    (effects : List Effect) (turned : turn profile conn (.arrive bytes) = some (after, effects)) :
    effects = [] ∧ after.state = conn.state ∧ after.outcome = conn.outcome := by
  obtain ⟨-, path⟩ := turn_turned profile conn after _ effects turned
  cases path with
  | arrive => exact ⟨rfl, rfl, rfl⟩

/-- A command changes the buffer and nothing that is heard. -/
theorem command_turn (profile : Profile) (conn after : Connection) (command : ManagerCommand)
    (effects : List Effect)
    (turned : turn profile conn (.command command) = some (after, effects)) :
    effects.filterMap Conversation.eventOf = [] ∧ after.state = conn.state ∧
      after.outcome = conn.outcome := by
  obtain ⟨-, path⟩ := turn_turned profile conn after _ effects turned
  cases path with
  | command _ _ _ ran =>
      unfold handleManagerCommand at ran
      split at ran <;> obtain ⟨rfl, rfl⟩ := Prod.mk.inj ran <;> exact ⟨rfl, rfl, rfl⟩

theorem leaving_turn (profile : Profile) (conn after : Connection) (next : Turn)
    (effects : List Effect) (leaves : next = .commandsClosed ∨ ∃ reason, next = .fails reason)
    (turned : turn profile conn next = some (after, effects)) :
    effects = [] ∧ after.state = conn.state := by
  obtain ⟨-, path⟩ := turn_turned profile conn after _ effects turned
  rcases leaves with rfl | ⟨reason, rfl⟩
  · cases path with
    | commandsClosed => exact ⟨rfl, rfl⟩
  · cases path with
    | fails => exact ⟨rfl, rfl⟩

theorem partly_turn (profile : Profile) (conn after : Connection) (count : Nat) (stale : Bytes)
    (effects : List Effect) (turned : turn profile conn (.poll count stale) = some (after, effects))
    (partly : frames effects = []) :
    effects = [] ∧ after.state = conn.state ∧ after.outcome = conn.outcome := by
  obtain ⟨-, path⟩ := turn_turned profile conn after _ effects turned
  cases path with
  | inPrefix | opened | inBody => exact ⟨rfl, rfl, rfl⟩
  | emptyBody _ _ _ _ _ _ _ _ ended | finished _ _ _ _ _ _ _ _ ended =>
      rw [(finish_read_frames profile _ after effects ended).1] at partly
      cases partly

theorem whole_turn (profile : Profile) (conn after : Connection) (count : Nat) (stale : Bytes)
    (effects : List Effect) (turned : turn profile conn (.poll count stale) = some (after, effects))
    (body : Bytes) (rest : List Bytes) (whole : frames effects = body :: rest) :
    ∃ filled, finishRead profile filled = (after, effects) ∧ filled.buf = body ∧
      filled.state = conn.state ∧ filled.outcome = none := by
  obtain ⟨live, path⟩ := turn_turned profile conn after _ effects turned
  cases path with
  | inPrefix | opened | inBody => cases whole
  | emptyBody _ _ _ _ _ _ _ _ ended | finished _ _ _ _ _ _ _ _ ended =>
      refine ⟨_, ended, ?_, rfl, live⟩
      rw [(finish_read_frames profile _ after effects ended).1] at whole
      exact (List.cons.inj whole).1

end Turns

section Views

def notesOf (log : List WiredNote) : List Note :=
  log.filterMap fun
    | .note note => some note
    | _ => none

def turnsOf (sender : Sender) (log : List WiredNote) : List Turn :=
  log.filterMap fun
    | .turned origin next => if origin = sender then some next else none
    | _ => none

def effectsOf (sender : Sender) (log : List WiredNote) : List Effect :=
  log.filterMap fun
    | .effect origin effect => if origin = sender then some effect else none
    | _ => none

def bytesTo (sender : Sender) (acts : List WiredAct) : Bytes :=
  acts.flatMap fun
    | .arrive origin bytes => if origin = sender then bytes else []
    | _ => []

theorem notes_of_append (first second : List WiredNote) :
    notesOf (first ++ second) = notesOf first ++ notesOf second := List.filterMap_append

theorem turns_of_append (sender : Sender) (first second : List WiredNote) :
    turnsOf sender (first ++ second) = turnsOf sender first ++ turnsOf sender second :=
  List.filterMap_append

theorem effects_of_append (sender : Sender) (first second : List WiredNote) :
    effectsOf sender (first ++ second) = effectsOf sender first ++ effectsOf sender second :=
  List.filterMap_append

@[simp] theorem notes_of_labels (sender : Sender) (turns : List Turn) (effects : List Effect) :
    notesOf (labels sender turns effects) = [] := by
  simp [notesOf, labels, List.filterMap_map]

@[simp] theorem notes_of_notes (notes : List Note) :
    notesOf (notes.map WiredNote.note) = notes := by
  simp [notesOf, List.filterMap_map]

@[simp] theorem turns_of_labels (sender origin : Sender) (turns : List Turn)
    (effects : List Effect) :
    turnsOf sender (labels origin turns effects) = if origin = sender then turns else [] := by
  by_cases mine : origin = sender <;>
    simp [turnsOf, labels, List.filterMap_map, mine]

@[simp] theorem turns_of_notes (sender : Sender) (notes : List Note) :
    turnsOf sender (notes.map WiredNote.note) = [] := by
  simp [turnsOf, List.filterMap_map]

@[simp] theorem effects_of_labels (sender origin : Sender) (turns : List Turn)
    (effects : List Effect) :
    effectsOf sender (labels origin turns effects) = if origin = sender then effects else [] := by
  by_cases mine : origin = sender <;>
    simp [effectsOf, labels, List.filterMap_map, mine]

@[simp] theorem effects_of_notes (sender : Sender) (notes : List Note) :
    effectsOf sender (notes.map WiredNote.note) = [] := by
  simp [effectsOf, List.filterMap_map]

end Views

section Layers

/-- A connection task and the loop under it. Once the bitfield is shared, the loop has
gone through the turns taken from the moment the handshake was done. -/
inductive Lies (profile : Profile) :
    Option Link → Option Connection → List Turn → List Effect → Prop where
  | absent : Lies profile none none [] []
  | connecting (link : Link) (unconnected : link.session = none) :
      Lies profile (some link) none [] []
  | opening (link : Link) (session : Session) (bitfield : Bytes)
      (begun : link.forwarder ≠ .connecting) (stands : link.session = some session)
      (unshared : session.greeting = some bitfield) (given : link.bitfield = some bitfield)
      (fresh : session.state = PeerState.new none) :
      Lies profile (some link) (some Connection.new) [] []
  | talking (link : Link) (session : Session) (conn : Connection) (turns : List Turn)
      (effects : List Effect) (begun : link.forwarder ≠ .connecting)
      (stands : link.session = some session) (shared : session.greeting = none)
      (ran : runFrom profile link.bitfield turns = some (conn, effects))
      (live : session.outcome = none → conn.outcome = none)
      (same : conn.state = session.state) :
      Lies profile (some link) (some conn) turns effects

theorem lies_kept (profile : Profile) (link after : Link) (conn : Option Connection)
    (turns : List Turn) (effects : List Effect)
    (lies : Lies profile (some link) conn turns effects) (session : after.session = link.session)
    (bitfield : after.bitfield = link.bitfield)
    (begun : after.forwarder = .connecting → link.forwarder = .connecting) :
    Lies profile (some after) conn turns effects := by
  cases lies with
  | connecting _ unconnected => exact .connecting after (session.trans unconnected)
  | opening _ open_session value started stands unshared given fresh =>
      exact .opening after open_session value (fun waiting => started (begun waiting))
        (session.trans stands) unshared (bitfield.trans given) fresh
  | talking _ open_session loop _ _ started stands shared ran live same =>
      refine .talking after open_session loop turns effects
        (fun waiting => started (begun waiting)) (session.trans stands) shared ?_ live same
      rw [bitfield]
      exact ran

theorem lies_talking (profile : Profile) (link : Link) (session : Session) (conn : Connection)
    (turns : List Turn) (effects : List Effect)
    (lies : Lies profile (some link) (some conn) turns effects)
    (stands : link.session = some session) (shared : session.greeting = none) :
    link.forwarder ≠ .connecting ∧ runFrom profile link.bitfield turns = some (conn, effects) ∧
      (session.outcome = none → conn.outcome = none) ∧ conn.state = session.state := by
  cases lies with
  | opening _ other bitfield begun there unshared given fresh =>
      obtain rfl := Option.some.inj (there.symm.trans stands)
      rw [shared] at unshared
      cases unshared
  | talking _ other _ _ _ begun there shared ran live same =>
      obtain rfl := Option.some.inj (there.symm.trans stands)
      exact ⟨begun, ran, live, same⟩

theorem lies_session (profile : Profile) (link after : Link) (session next : Session)
    (conn : Option Connection) (turns : List Turn) (effects : List Effect)
    (lies : Lies profile (some link) conn turns effects) (stands : link.session = some session)
    (follows : after.session = some next) (greeting : next.greeting = session.greeting)
    (state : next.state = session.state) (outcome : next.outcome = none → session.outcome = none)
    (bitfield : after.bitfield = link.bitfield) (forwarder : after.forwarder = link.forwarder) :
    Lies profile (some after) conn turns effects := by
  cases lies with
  | connecting _ unconnected =>
      rw [unconnected] at stands
      cases stands
  | opening _ _ value begun there unshared given fresh =>
      obtain rfl := Option.some.inj (there.symm.trans stands)
      exact .opening after next value (fun waiting => begun (forwarder.symm.trans waiting)) follows
        (greeting.trans unshared) (bitfield.trans given) (state.trans fresh)
  | talking _ _ loop _ _ begun there shared ran live same =>
      obtain rfl := Option.some.inj (there.symm.trans stands)
      refine .talking after next loop turns effects
        (fun waiting => begun (forwarder.symm.trans waiting)) follows (greeting.trans shared) ?_
        (fun running => live (outcome running)) (same.trans state.symm)
      rw [bitfield]
      exact ran

theorem lies_stream (profile : Profile) (link : Link) (session : Session)
    (conn : Option Connection) (turns : List Turn) (effects : List Effect)
    (lies : Lies profile (some link) conn turns effects) (stands : link.session = some session) :
    ∃ loop, conn = some loop := by
  cases lies with
  | connecting _ unconnected =>
      rw [unconnected] at stands
      cases stands
  | opening => exact ⟨_, rfl⟩
  | talking _ _ loop => exact ⟨loop, rfl⟩

theorem turn_of_opening (link : Link) (session : Session) (act : TaskAct) (bitfield : Bytes)
    (unshared : session.greeting = some bitfield) : turnOf link session act = none := by
  simp only [turnOf, unshared]

structure Keeps (profile : Profile) (link after : Link) (conn : Option Connection)
    (turns more : List Turn) (effects said : List Effect) (notes : List TaskNote) : Prop where
  lies : Lies profile (some after) conn (turns ++ more) (effects ++ said)
  raised : said.filterMap Conversation.eventOf = notes.filterMap raisedEvent
  wrote : greeted after ++ (turns ++ more).filterMap OutboundStream.sentMessage =
    greeted link ++ turns.filterMap OutboundStream.sentMessage ++ notes.filterMap serializedMessage

theorem keeps_silent (profile : Profile) (link after : Link) (conn : Option Connection)
    (turns : List Turn) (effects : List Effect)
    (lies : Lies profile (some after) conn turns effects) (same : greeted after = greeted link) :
    Keeps profile link after conn turns [] effects [] [] := by
  refine ⟨?_, rfl, ?_⟩
  · simpa using lies
  · simp [same]

theorem greeted_session (link after : Link) (session : Session) (next : Session)
    (stands : link.session = some session) (follows : after.session = some next)
    (greeting : next.greeting = session.greeting) (bitfield : after.bitfield = link.bitfield) :
    greeted after = greeted link := by
  rw [greeted, greeted, stands, follows, bitfield]
  simp only [greeting]

theorem keeps_turn (profile : Profile) (link after : Link) (session next : Session)
    (conn moved : Connection) (turns : List Turn) (effects : List Effect) (taken : Turn)
    (said : List Effect) (notes : List TaskNote) (begun : link.forwarder ≠ .connecting)
    (stands : link.session = some session)
    (ran : runFrom profile link.bitfield turns = some (conn, effects))
    (shared : session.greeting = none)
    (turned : turn profile conn taken = some (moved, said))
    (forwarder : after.forwarder = link.forwarder) (bitfield : after.bitfield = link.bitfield)
    (follows : after.session = some next) (greeting : next.greeting = session.greeting)
    (live : next.outcome = none → moved.outcome = none) (same : moved.state = next.state)
    (raised : said.filterMap Conversation.eventOf = notes.filterMap raisedEvent)
    (wrote : [taken].filterMap OutboundStream.sentMessage = notes.filterMap serializedMessage) :
    Keeps profile link after (some moved) turns [taken] effects said notes := by
  refine ⟨?_, raised, ?_⟩
  · refine .talking after next moved _ _ ?_ follows (greeting.trans shared) ?_ live same
    · rw [forwarder]
      exact begun
    · rw [bitfield]
      exact run_from_snoc profile link.bitfield turns taken conn moved effects said ran turned
  · rw [greeted_session link after session next stands follows greeting bitfield,
      List.filterMap_append, wrote, List.append_assoc]

theorem underneath_idle (profile : Profile) (link : Link) (session : Session)
    (conn : Connection) (act : TaskAct) (next : Option Connection) (more : List Turn)
    (said : List Effect) (stands : link.session = some session)
    (apart : act ≠ .connected ∧ act ≠ .greet) (none_taken : turnOf link session act = none)
    (under : underneath profile link (some conn) act = some (next, more, said)) :
    next = some conn ∧ more = [] ∧ said = [] := by
  unfold underneath at under
  rw [stands] at under
  split at under
  · cases under
  · cases under
  · cases under
  · exact (apart.1 rfl).elim
  · exact (apart.2 rfl).elim
  · rename_i found there
    obtain rfl := Option.some.inj found
    obtain rfl := Option.some.inj there
    simp only [none_taken, Option.some.injEq, Prod.mk.injEq] at under
    exact ⟨under.1.symm, under.2.1.symm, under.2.2.symm⟩
  · simp only [Option.some.injEq, Prod.mk.injEq] at under
    exact ⟨under.1.symm, under.2.1.symm, under.2.2.symm⟩

theorem underneath_turn (profile : Profile) (link : Link) (session : Session)
    (conn : Connection) (act : TaskAct) (next : Option Connection) (more : List Turn)
    (said : List Effect) (taken : Turn) (stands : link.session = some session)
    (chosen : turnOf link session act = some taken)
    (under : underneath profile link (some conn) act = some (next, more, said)) :
    ∃ moved, next = some moved ∧ more = [taken] ∧ turn profile conn taken = some (moved, said) := by
  unfold underneath at under
  rw [stands] at under
  split at under
  · cases under
  · cases under
  · cases under
  · cases greeting : session.greeting <;> simp [turnOf, greeting] at chosen
  · cases greeting : session.greeting <;> simp [turnOf, greeting] at chosen
  · rename_i found there
    obtain rfl := Option.some.inj found
    obtain rfl := Option.some.inj there
    simp only [chosen] at under
    obtain ⟨⟨moved, effects⟩, turned, same⟩ := Option.map_eq_some_iff.mp under
    simp only [Prod.mk.injEq] at same
    obtain ⟨rfl, rfl, rfl⟩ := same
    exact ⟨moved, rfl, rfl, turned⟩
  · rename_i absent _
    exact absurd rfl (absent session conn rfl)

theorem underneath_unseen (profile : Profile) (link : Link) (conn : Option Connection)
    (act : TaskAct) (unseen : act ∈ [TaskAct.refused, .receive, .drained, .emit]) :
    underneath profile link conn act = some (conn, [], []) := by
  have idle : ∀ session, turnOf link session act = none := by
    intro session
    cases greeting : session.greeting with
    | some bitfield => exact turn_of_opening link session act bitfield greeting
    | none =>
        simp only [List.mem_cons, List.not_mem_nil, or_false] at unseen
        rcases unseen with rfl | rfl | rfl | rfl <;> simp only [turnOf, greeting]
  simp only [List.mem_cons, List.not_mem_nil, or_false] at unseen
  cases stands : link.session with
  | none => rcases unseen with rfl | rfl | rfl | rfl <;> simp [underneath, stands]
  | some session =>
      cases conn with
      | none => rcases unseen with rfl | rfl | rfl | rfl <;> simp [underneath, stands]
      | some conn =>
          rcases unseen with rfl | rfl | rfl | rfl <;> simp [underneath, stands, idle]

theorem underneath_read (profile : Profile) (link : Link) (conn : Option Connection)
    (message : Message) : underneath profile link conn (.read message) = none := by
  unfold underneath
  split <;> first | rfl | contradiction

/-- However the connection task ends, the loop under it has ended too, or never sees it. -/
theorem keeps_ended (profile : Profile) (held : Bool) (link : Link) (session : Session)
    (outcome : Outcome) (conn next : Option Connection) (act : TaskAct) (turns more : List Turn)
    (effects said : List Effect) (lies : Lies profile (some link) conn turns effects)
    (there : link.session = some session) (running : session.outcome = none)
    (stepped : taskStep held link act = some (link.withSession (session.ended outcome), []))
    (under : underneath profile link conn act = some (next, more, said)) :
    Keeps profile link (link.withSession (session.ended outcome)) next turns more effects said
      [] := by
  have idle : Keeps profile link (link.withSession (session.ended outcome)) conn turns [] effects
      [] [] := by
    refine keeps_silent profile link _ conn turns effects ?_ ?_
    · exact lies_session profile link _ session _ conn turns effects lies there rfl rfl rfl nofun
        rfl rfl
    · exact greeted_session link _ session _ there rfl rfl rfl
  obtain ⟨loop, rfl⟩ := lies_stream profile link session conn turns effects lies there
  have leaves : ∀ taken, (taken = .commandsClosed ∨ ∃ reason, taken = .fails reason) →
      session.greeting = none → turnOf link session act = some taken →
      Keeps profile link (link.withSession (session.ended outcome)) next turns more effects said
        [] := by
    intro taken leaving shared chosen
    obtain ⟨moved, rfl, rfl, turned⟩ :=
      underneath_turn profile link session loop act next more said taken there chosen under
    obtain ⟨rfl, state⟩ := leaving_turn profile loop moved taken said leaving turned
    obtain ⟨begun, ran, live, same⟩ :=
      lies_talking profile link session loop turns effects lies there shared
    refine keeps_turn profile link _ session (session.ended outcome) loop moved turns effects taken
      [] [] begun there ran shared turned rfl rfl rfl rfl nofun (state.trans same) rfl ?_
    rcases leaving with rfl | ⟨reason, rfl⟩ <;> rfl
  have stays : (act ≠ .connected ∧ act ≠ .greet) → turnOf link session act = none →
      Keeps profile link (link.withSession (session.ended outcome)) next turns more effects said
        [] := by
    intro apart nothing
    obtain ⟨rfl, rfl, rfl⟩ :=
      underneath_idle profile link session loop act next more said there apart nothing under
    exact idle
  cases act with
  | connected | refused | greet | take | read | receive | drained =>
      exact (running_not_ended held link _ [] session outcome there running rfl stepped).elim
  | panics => simp [underneath] at under
  | emit =>
      refine stays ⟨nofun, nofun⟩ ?_
      cases greeting : session.greeting <;> simp only [turnOf, greeting]
  | commandsClosed =>
      cases greeting : session.greeting with
      | some bitfield =>
          exact stays ⟨nofun, nofun⟩ (turn_of_opening link session _ bitfield greeting)
      | none => exact leaves _ (Or.inl rfl) greeting (by simp only [turnOf, greeting])
  | fails reason =>
      cases greeting : session.greeting with
      | some bitfield =>
          exact stays ⟨nofun, nofun⟩ (turn_of_opening link session _ bitfield greeting)
      | none => exact leaves _ (Or.inr ⟨reason, rfl⟩) greeting (by simp only [turnOf, greeting])

theorem keeps_tasked (profile : Profile) (held : Bool) (link after : Link)
    (conn next : Option Connection) (act : TaskAct) (turns more : List Turn)
    (effects said : List Effect) (notes : List TaskNote)
    (lies : Lies profile (some link) conn turns effects)
    (stepped : taskStep held link act = some (after, notes))
    (under : underneath profile link conn act = some (next, more, said)) :
    Keeps profile link after next turns more effects said notes := by
  cases task_step_tasked held link after act notes stepped with
  | connected waiting =>
      obtain ⟨rfl, rfl, rfl⟩ : some Connection.new = next ∧ [] = more ∧ [] = said := by
        simpa [underneath] using under
      cases lies with
      | opening _ session bitfield begun => exact (begun waiting).elim
      | talking _ session loop _ _ begun => exact (begun waiting).elim
      | connecting _ unconnected =>
          refine ⟨?_, rfl, ?_⟩
          · cases given : link.bitfield with
            | none => exact .talking _ _ _ _ _ (by simp) rfl rfl rfl (fun _ => rfl) rfl
            | some bitfield => exact .opening _ _ bitfield (by simp) rfl rfl rfl rfl
          · cases given : link.bitfield <;> simp [greeted, unconnected, Session.new]
  | refused waiting =>
      rw [underneath_unseen profile link conn .refused (by simp)] at under
      obtain ⟨rfl, rfl, rfl⟩ : conn = next ∧ [] = more ∧ [] = said := by simpa using under
      exact keeps_silent profile link _ conn turns effects
        (lies_kept profile link _ conn turns effects lies rfl rfl (by simp)) rfl
  | greet session bitfield there running unshared =>
      cases lies with
      | connecting _ unconnected =>
          rw [unconnected] at there
          cases there
      | talking _ other loop _ _ begun stands shared =>
          obtain rfl := Option.some.inj (there.symm.trans stands)
          rw [shared] at unshared
          cases unshared
      | opening _ other value begun stands pending given fresh =>
          obtain rfl := Option.some.inj (there.symm.trans stands)
          obtain rfl := Option.some.inj (unshared.symm.trans pending)
          simp only [underneath, there, unshared, Option.some.injEq, Prod.mk.injEq] at under
          obtain ⟨rfl, rfl, rfl⟩ := under
          refine ⟨.talking _ _ _ _ _ begun rfl rfl ?_ (fun _ => rfl) fresh.symm, rfl, ?_⟩
          · rw [show (link.withSession { session with greeting := none }).bitfield = some bitfield
              from given]
            rfl
          · simp [greeted, there, unshared, Link.withSession, given, serializedMessage]
  | take session command rest there selects taken =>
      obtain ⟨-, shared, -⟩ := (selects_iff session).mp selects
      obtain ⟨loop, rfl⟩ := lies_stream profile link session conn turns effects lies there
      obtain ⟨begun, ran, live, same⟩ :=
        lies_talking profile link session loop turns effects lies there shared
      have chosen : turnOf link session .take = some (.command command) := by
        simp only [turnOf, shared]
        exact congrArg (Option.map _) ((recv_some_iff link.commands rest command).mpr taken)
      obtain ⟨moved, rfl, rfl, turned⟩ :=
        underneath_turn profile link session loop _ next more said _ there chosen under
      obtain ⟨silent, state, outcome⟩ := command_turn profile loop moved command said turned
      refine keeps_turn profile link _ session session loop moved turns effects _ said _ begun there
        ran shared turned rfl rfl there rfl (fun running => outcome.trans (live running))
        (state.trans same) ?_ ?_
      · rw [silent, List.filterMap_map]
        exact (List.filterMap_eq_nil_iff.mpr fun _ _ => rfl).symm
      · rw [serialized_messages]
        cases converted : commandMessage command <;>
          simp [OutboundStream.sentMessage, converted]
  | read session message there selects =>
      rw [underneath_read] at under
      cases under
  | emit session event rest events there running unsent sent listens =>
      rw [underneath_unseen profile link conn .emit (by simp)] at under
      obtain ⟨rfl, rfl, rfl⟩ : conn = next ∧ [] = more ∧ [] = said := by simpa using under
      refine keeps_silent profile link _ conn turns effects ?_ ?_
      · exact lies_session profile link _ session _ conn turns effects lies there rfl rfl rfl id rfl
          rfl
      · exact greeted_session link _ session _ there rfl rfl rfl
  | receive event events ready taken =>
      rw [underneath_unseen profile link conn .receive (by simp)] at under
      obtain ⟨rfl, rfl, rfl⟩ : conn = next ∧ [] = more ∧ [] = said := by simpa using under
      exact keeps_silent profile link _ conn turns effects
        (lies_kept profile link _ conn turns effects lies rfl rfl (by simp)) rfl
  | drained session ready there dropped empty =>
      rw [underneath_unseen profile link conn .drained (by simp)] at under
      obtain ⟨rfl, rfl, rfl⟩ : conn = next ∧ [] = more ∧ [] = said := by simpa using under
      exact keeps_silent profile link _ conn turns effects
        (lies_kept profile link _ conn turns effects lies rfl rfl (by simp)) rfl
  | ended _ session outcome there running why =>
      exact keeps_ended profile held link session outcome conn next act turns more effects said
        lies there running stepped under

theorem keeps_alone (profile : Profile) (link : Link) (session : Session)
    (loop moved : Connection) (turns : List Turn) (effects : List Effect) (taken : Turn)
    (lies : Lies profile (some link) (some loop) turns effects)
    (there : link.session = some session)
    (shared : session.greeting = none) (turned : turn profile loop taken = some (moved, []))
    (state : moved.state = loop.state) (outcome : moved.outcome = loop.outcome)
    (mute : OutboundStream.sentMessage taken = none) :
    Keeps profile link link (some moved) turns [taken] effects [] [] := by
  obtain ⟨begun, ran, live, same⟩ :=
    lies_talking profile link session loop turns effects lies there shared
  refine keeps_turn profile link link session session loop moved turns effects taken [] [] begun
    there ran shared turned rfl rfl there rfl (fun running => outcome.trans (live running))
    (state.trans same) rfl ?_
  simp [mute]

theorem tasked_closes (link after : Link) (session : Session) (act : TaskAct)
    (notes : List TaskNote) (there : link.session = some session)
    (closes : act = .panics ∨ ∃ reason, act = .fails reason)
    (tasked : Tasked link act after notes) :
    ∃ outcome, after = link.withSession (session.ended outcome) ∧ notes = [] := by
  rcases closes with rfl | ⟨reason, rfl⟩
  · cases tasked with
    | ended _ other outcome stands =>
        obtain rfl := Option.some.inj (there.symm.trans stands)
        exact ⟨outcome, rfl, rfl⟩
  · cases tasked with
    | ended _ other outcome stands =>
        obtain rfl := Option.some.inj (there.symm.trans stands)
        exact ⟨outcome, rfl, rfl⟩

theorem parsed_closes (profile : Profile) (body : Bytes) (fault : Fault MessageError)
    (failed : Message.deserialize profile body = .error fault) :
    parsedAct profile body = .panics ∨ ∃ reason, parsedAct profile body = .fails reason := by
  cases fault with
  | error reason => exact Or.inr ⟨.message reason, by simp only [parsedAct, failed]⟩
  | overflow | bounds => exact Or.inl (by simp only [parsedAct, failed])

/-- The body that a poll completes is heard in both layers. -/
theorem keeps_parsed (profile : Profile) (held : Bool) (link after : Link) (session : Session)
    (loop moved : Connection) (turns : List Turn) (effects said : List Effect) (count : Nat)
    (stale body : Bytes) (rest : List Bytes) (notes : List TaskNote)
    (lies : Lies profile (some link) (some loop) turns effects)
    (there : link.session = some session)
    (selects : session.selects = true)
    (turned : turn profile loop (.poll count stale) = some (moved, said))
    (whole : frames said = body :: rest)
    (stepped : taskStep held link (parsedAct profile body) = some (after, notes)) :
    Keeps profile link after (some moved) turns [.poll count stale] effects said notes := by
  obtain ⟨running, shared, -⟩ := (selects_iff session).mp selects
  obtain ⟨begun, ran, live, same⟩ :=
    lies_talking profile link session loop turns effects lies there shared
  obtain ⟨filled, ended, rfl, state, going⟩ :=
    whole_turn profile loop moved count stale said turned body rest whole
  have tasked := task_step_tasked held link after _ notes stepped
  unfold finishRead at ended
  cases parsed : Message.deserialize profile filled.buf with
  | error fault =>
      obtain ⟨outcome, rfl, rfl⟩ := tasked_closes link after session _ notes there
        (parsed_closes profile filled.buf fault parsed) tasked
      simp only [parsed] at ended
      obtain ⟨rfl, rfl⟩ := Prod.mk.inj ended
      exact keeps_turn profile link _ session (session.ended outcome) loop _ turns effects _ _ []
        begun there ran shared turned rfl rfl rfl rfl nofun (state.trans same) rfl rfl
  | ok pair =>
      obtain ⟨message, left⟩ := pair
      have act : parsedAct profile filled.buf = .read message := by
        simp only [parsedAct, parsed]
      rw [act] at tasked stepped
      simp only [parsed] at ended
      obtain ⟨rfl, rfl⟩ := Prod.mk.inj ended
      cases tasked with
      | ended _ other outcome stands live why =>
          exact (running_not_ended held link _ [] other outcome stands live rfl stepped).elim
      | read other _ stands _ =>
          obtain rfl := Option.some.inj (there.symm.trans stands)
          refine keeps_turn profile link _ session _ loop _ turns effects _ _ _ begun there ran
            shared turned rfl rfl rfl rfl (fun _ => going) ?_ ?_ ?_
          · rw [state, same]
          · rw [List.filterMap_cons, List.filterMap_map, List.filterMap_map, state, same]
            rfl
          · rw [raised_nothing_written]
            rfl

end Layers

section Runs

/-- The program seen message by message over the loops of its connections: each has read
what came in for it, and has raised and written what is seen of it above. -/
structure Under (profile : Profile) (wired : Wired) (past : List WiredAct)
    (log : List WiredNote) : Prop where
  lies : ∀ sender : Sender, Lies profile wired.swarm.peerManager.links[sender]?
    (wired.streams sender) (turnsOf sender log) (effectsOf sender log)
  arrives : ∀ sender, arrived (turnsOf sender log) = bytesTo sender past
  raises : ∀ sender, (effectsOf sender log).filterMap Conversation.eventOf =
    raisedBy sender (notesOf log)
  writes : ∀ sender : Sender, serializedBy sender (notesOf log) =
    wired.swarm.peerManager.links[sender]?.elim [] greeted ++
      (turnsOf sender log).filterMap OutboundStream.sentMessage

theorem bytes_to_snoc (sender : Sender) (past : List WiredAct) (act : WiredAct) :
    bytesTo sender (past ++ [act]) = bytesTo sender past ++ bytesTo sender [act] :=
  List.flatMap_append

theorem under_new (profile : Profile) (manager : DownloadManager) :
    Under profile (Wired.new manager) [] [] :=
  ⟨fun _ => .absent, fun _ => rfl, fun _ => rfl, fun _ => rfl⟩

theorem under_keeps (profile : Profile) (before : Wired) (past : List WiredAct)
    (log : List WiredNote) (under : Under profile before past log) (sender : Sender)
    (link after : Link) (conn : Option Connection) (more : List Turn) (said : List Effect)
    (notes : List TaskNote) (there : before.swarm.peerManager.links[sender]? = some link)
    (keeps : Keeps profile link after conn (turnsOf sender log) more (effectsOf sender log) said
      notes) (act : WiredAct)
    (comes : ∀ other, bytesTo other [act] = if sender = other then arrived more else []) :
    Under profile { before.setStream sender conn with swarm := before.swarm.setLink sender after }
      (past ++ [act]) (log ++ (labels sender more said ++
        (notes.map (Note.task sender)).map .note)) := by
  refine ⟨fun other => ?_, fun other => ?_, fun other => ?_, fun other => ?_⟩
  · rw [turns_of_append, turns_of_append, effects_of_append, effects_of_append, turns_of_labels,
      effects_of_labels, turns_of_notes, effects_of_notes, List.append_nil, List.append_nil]
    change Lies profile (before.swarm.setLink sender after).peerManager.links[other]?
      (Function.update before.streams sender conn other) _ _
    rw [get_set_link before.swarm sender other link after there]
    by_cases mine : sender = other
    · subst mine
      rw [if_pos rfl, if_pos rfl, if_pos rfl, Function.update_self]
      exact keeps.lies
    · rw [if_neg mine, if_neg mine, if_neg mine, Function.update_of_ne (Ne.symm mine),
        List.append_nil, List.append_nil]
      exact under.lies other
  · rw [turns_of_append, turns_of_append, turns_of_labels, turns_of_notes, List.append_nil,
      bytes_to_snoc, comes, ← under.arrives other]
    by_cases mine : sender = other
    · rw [if_pos mine, if_pos mine]
      exact List.flatMap_append
    · rw [if_neg mine, if_neg mine, List.append_nil, List.append_nil]
  · rw [effects_of_append, effects_of_append, effects_of_labels, effects_of_notes,
      List.append_nil, notes_of_append, notes_of_append, notes_of_labels, notes_of_notes,
      List.nil_append, raised_by_append, raised_by_task, List.filterMap_append,
      under.raises other]
    by_cases mine : sender = other
    · rw [if_pos mine, if_pos mine, keeps.raised]
    · rw [if_neg mine, if_neg mine]
      rfl
  · rw [turns_of_append, turns_of_append, turns_of_labels, turns_of_notes, List.append_nil,
      notes_of_append, notes_of_append, notes_of_labels, notes_of_notes, List.nil_append,
      serialized_by_append, serialized_by_task, under.writes other]
    change _ = (before.swarm.setLink sender after).peerManager.links[other]?.elim [] greeted ++ _
    rw [get_set_link before.swarm sender other link after there]
    by_cases mine : sender = other
    · subst mine
      rw [if_pos rfl, if_pos rfl, if_pos rfl, there]
      exact keeps.wrote.symm
    · rw [if_neg mine, if_neg mine, if_neg mine, List.append_nil, List.append_nil]

structure Unseen (before after : Swarm) (notes : List Note) : Prop where
  lies : ∀ (profile : Profile) (sender : Sender) (conn : Option Connection) (turns : List Turn)
    (effects : List Effect), Lies profile before.peerManager.links[sender]? conn turns effects →
    Lies profile after.peerManager.links[sender]? conn turns effects
  greets : ∀ sender : Sender, after.peerManager.links[sender]?.elim [] greeted =
    before.peerManager.links[sender]?.elim [] greeted
  silent : ∀ sender, raisedBy sender notes = [] ∧ serializedBy sender notes = []

theorem unseen_links (before after : Swarm) (notes : List Note)
    (same : after.peerManager.links = before.peerManager.links)
    (silent : ∀ sender, raisedBy sender notes = [] ∧ serializedBy sender notes = []) :
    Unseen before after notes := by
  refine ⟨fun profile sender conn turns effects lies => ?_, fun sender => ?_, silent⟩
  · rw [same]
    exact lies
  · rw [same]

theorem unseen_link (before after : Swarm) (notes : List Note) (sender : Sender)
    (link next : Link) (there : before.peerManager.links[sender]? = some link)
    (set : after.peerManager.links = (before.setLink sender next).peerManager.links)
    (session : next.session = link.session) (bitfield : next.bitfield = link.bitfield)
    (begun : next.forwarder = .connecting → link.forwarder = .connecting)
    (silent : ∀ sender, raisedBy sender notes = [] ∧ serializedBy sender notes = []) :
    Unseen before after notes := by
  refine ⟨fun profile other conn turns effects lies => ?_, fun other => ?_, silent⟩
  · rw [set, get_set_link before sender other link next there]
    by_cases mine : sender = other
    · subst mine
      rw [there] at lies
      rw [if_pos rfl]
      exact lies_kept profile link next conn turns effects lies session bitfield begun
    · rw [if_neg mine]
      exact lies
  · rw [set, get_set_link before sender other link next there]
    by_cases mine : sender = other
    · subst mine
      rw [if_pos rfl, there, Option.elim_some, Option.elim_some, greeted, greeted, session,
        bitfield]
    · rw [if_neg mine]

theorem unseen_added (before : Swarm) (peerIp : PeerIp) (bitfield : Option Bytes) :
    Unseen before { before with peerManager := before.peerManager.addPeer peerIp bitfield } [] := by
  refine ⟨fun profile sender conn turns effects lies => ?_, fun sender => ?_, fun _ => ⟨rfl, rfl⟩⟩
  · rcases get_added before.peerManager peerIp bitfield sender with same | ⟨absent, new⟩
    · rw [same]
      exact lies
    · rw [absent] at lies
      cases lies
      rw [new]
      exact .connecting _ rfl
  · rcases get_added before.peerManager peerIp bitfield sender with same | ⟨absent, new⟩
    · rw [same]
    · rw [absent, new]
      rfl

theorem step_unseen (sha1 : Bytes → Hash) (before after : Swarm) (act : Act) (notes : List Note)
    (apart : ∀ sender task, act ≠ .task sender task)
    (stepped : step sha1 before act = some (after, notes)) : Unseen before after notes := by
  cases step_stepped sha1 before after act notes stepped with
  | added peerIp bitfield => exact unseen_added before peerIp bitfield
  | registered | started | closed | checked | refused =>
      exact unseen_links before _ [] rfl fun _ => ⟨rfl, rfl⟩
  | handled => exact unseen_links before _ _ rfl fun _ => ⟨rfl, rfl⟩
  | tasked sender task => exact (apart sender task rfl).elim
  | forwarded sender link event inbox there holding =>
      exact unseen_link before _ _ sender link _ there rfl rfl rfl (by simp) fun _ => ⟨rfl, rfl⟩
  | abandoned sender link event there holding =>
      exact unseen_link before _ _ sender link _ there rfl rfl rfl (by simp) fun _ => ⟨rfl, rfl⟩
  | sent sender command rest link commands busy there =>
      exact unseen_link before _ _ sender link _ there rfl rfl rfl id fun _ => ⟨rfl, rfl⟩

theorem under_other (profile : Profile) (before : Wired) (past : List WiredAct)
    (log : List WiredNote) (under : Under profile before past log) (act : Act) (swarm : Swarm)
    (notes : List Note) (unseen : Unseen before.swarm swarm notes) :
    Under profile { before with swarm := swarm } (past ++ [.act act]) (log ++ notes.map .note) := by
  refine ⟨fun sender => ?_, fun sender => ?_, fun sender => ?_, fun sender => ?_⟩
  · rw [turns_of_append, effects_of_append, turns_of_notes, effects_of_notes, List.append_nil,
      List.append_nil]
    exact unseen.lies profile sender _ _ _ (under.lies sender)
  · rw [turns_of_append, turns_of_notes, List.append_nil, bytes_to_snoc, under.arrives sender]
    exact (List.append_nil _).symm
  · rw [effects_of_append, effects_of_notes, List.append_nil, notes_of_append, notes_of_notes,
      raised_by_append, (unseen.silent sender).1, List.append_nil, under.raises sender]
  · rw [turns_of_append, turns_of_notes, List.append_nil, notes_of_append, notes_of_notes,
      serialized_by_append, (unseen.silent sender).2, List.append_nil, under.writes sender,
      unseen.greets sender]

theorem task_step_link (sha1 : Bytes → Hash) (before after : Swarm) (sender : Sender)
    (act : TaskAct) (notes : List Note)
    (stepped : step sha1 before (.task sender act) = some (after, notes)) :
    ∃ link next said, before.peerManager.links[sender]? = some link ∧
      taskStep (before.held sender) link act = some (next, said) ∧
      after = before.setLink sender next ∧ notes = said.map (.task sender) := by
  simp only [step] at stepped
  split at stepped
  · rename_i link there
    obtain ⟨⟨next, said⟩, turned, same⟩ := Option.map_eq_some_iff.mp stepped
    obtain ⟨rfl, rfl⟩ := Prod.mk.inj same
    exact ⟨link, next, said, there, turned, rfl, rfl⟩
  · cases stepped

theorem turn_of_dry (link : Link) (session : Session) (act : TaskAct) (taken : Turn)
    (chosen : turnOf link session act = some taken) : arrivedBytes taken = [] := by
  unfold turnOf at chosen
  split at chosen
  · cases chosen
  · obtain ⟨received, -, rfl⟩ := Option.map_eq_some_iff.mp chosen
    rfl
  · obtain rfl := Option.some.inj chosen
    rfl
  · obtain rfl := Option.some.inj chosen
    rfl
  · cases chosen

theorem underneath_chosen (profile : Profile) (link : Link) (conn next : Option Connection)
    (act : TaskAct) (more : List Turn) (said : List Effect)
    (under : underneath profile link conn act = some (next, more, said)) (taken : Turn)
    (inside : taken ∈ more) : ∃ session, turnOf link session act = some taken := by
  unfold underneath at under
  split at under
  · cases under
  · cases under
  · cases under
  · obtain ⟨-, rfl, -⟩ := by simpa using under
    cases inside
  · obtain ⟨-, rfl, -⟩ := by simpa using under
    cases inside
  · split at under
    · rename_i session _ next chosen
      obtain ⟨moved, -, same⟩ := Option.map_eq_some_iff.mp under
      obtain ⟨-, rfl, -⟩ := by simpa using same
      obtain rfl := List.mem_singleton.mp inside
      exact ⟨_, chosen⟩
    · obtain ⟨-, rfl, -⟩ := by simpa using under
      cases inside
  · obtain ⟨-, rfl, -⟩ := by simpa using under
    cases inside

theorem underneath_dry (profile : Profile) (link : Link) (conn next : Option Connection)
    (act : TaskAct) (more : List Turn) (said : List Effect)
    (under : underneath profile link conn act = some (next, more, said)) : arrived more = [] := by
  refine List.flatMap_eq_nil_iff.mpr fun taken inside => ?_
  obtain ⟨session, chosen⟩ :=
    underneath_chosen profile link conn next act more said under taken inside
  exact turn_of_dry link session act taken chosen

theorem underneath_commanded (profile : Profile) (link : Link) (conn next : Option Connection)
    (act : TaskAct) (more : List Turn) (said : List Effect)
    (under : underneath profile link conn act = some (next, more, said))
    (command : ManagerCommand) (taken : .command command ∈ more) :
    ∃ rest, link.commands.queue = command :: rest := by
  obtain ⟨session, chosen⟩ := underneath_chosen profile link conn next act more said under _ taken
  unfold turnOf at chosen
  split at chosen
  · cases chosen
  · obtain ⟨⟨other, rest⟩, received, same⟩ := Option.map_eq_some_iff.mp chosen
    obtain rfl := Turn.command.inj same
    exact ⟨rest.queue, (recv_some_iff link.commands rest other).mp received⟩
  · cases chosen
  · cases chosen
  · cases chosen

theorem set_link_self (swarm : Swarm) (sender : Sender) (link : Link)
    (there : swarm.peerManager.links[sender]? = some link) : swarm.setLink sender link = swarm := by
  obtain ⟨inside, rfl⟩ := List.getElem?_eq_some_iff.mp there
  simp [Swarm.setLink]

theorem under_alone (profile : Profile) (before : Wired) (past : List WiredAct)
    (log : List WiredNote) (under : Under profile before past log) (sender : Sender) (link : Link)
    (session : Session) (conn next : Connection) (taken : Turn)
    (there : before.swarm.peerManager.links[sender]? = some link)
    (stands : link.session = some session) (held : before.streams sender = some conn)
    (shared : session.greeting = none) (turned : turn profile conn taken = some (next, []))
    (state : next.state = conn.state) (outcome : next.outcome = conn.outcome)
    (mute : OutboundStream.sentMessage taken = none) (act : WiredAct)
    (comes : ∀ other, bytesTo other [act] = if sender = other then arrivedBytes taken else []) :
    Under profile (before.setStream sender (some next)) (past ++ [act])
      (log ++ labels sender [taken] []) := by
  have lies := under.lies sender
  rw [there, held] at lies
  have kept := under_keeps profile before past log under sender link link (some next) [taken] [] []
    there (keeps_alone profile link session conn next _ _ taken lies stands shared turned state
      outcome mute) act (fun other => by
        rw [comes, arrived, List.flatMap_singleton])
  rw [set_link_self before.swarm sender link there, List.map_nil, List.map_nil,
    List.append_nil] at kept
  exact kept

theorem under_step (profile : Profile) (sha1 : Bytes → Hash) (before after : Wired)
    (past : List WiredAct) (act : WiredAct) (log notes : List WiredNote)
    (under : Under profile before past log) (moved : Moved profile sha1 before act after notes) :
    Under profile after (past ++ [act]) (log ++ notes) := by
  cases moved with
  | arrived sender bytes link session conn next effects there stands held greeted turned =>
      obtain ⟨rfl, state, outcome⟩ := arrive_turn profile conn next bytes effects turned
      exact under_alone profile before past log under sender link session conn next _ there stands
        held greeted turned state outcome rfl _ fun _ => List.flatMap_singleton _ _
  | polled sender count stale link session conn next effects there stands held selects turned
      partly =>
      obtain ⟨rfl, state, outcome⟩ :=
        partly_turn profile conn next count stale effects turned partly
      exact under_alone profile before past log under sender link session conn next _ there stands
        held ((selects_iff session).mp selects).2.1 turned state outcome rfl _ fun _ => by
          split <;> rfl
  | parsed sender count stale link session conn next effects body rest swarm said there stands
      held selects turned whole stepped =>
      obtain ⟨other, linked, task_notes, here, tasked, rfl, rfl⟩ :=
        task_step_link sha1 before.swarm swarm sender _ said stepped
      obtain rfl := Option.some.inj (there.symm.trans here)
      have lies := under.lies sender
      rw [there, held] at lies
      refine under_keeps profile before past log under sender link linked (some next) _ effects
        task_notes there ?_ _ ?_
      · exact keeps_parsed profile _ link linked session conn next _ _ effects count stale body rest
          task_notes lies stands selects turned whole tasked
      · intro other
        split <;> rfl
  | tasked sender task link conn turns effects swarm said there beneath stepped =>
      obtain ⟨other, linked, task_notes, here, tasked, rfl, rfl⟩ :=
        task_step_link sha1 before.swarm swarm sender task said stepped
      obtain rfl := Option.some.inj (there.symm.trans here)
      have lies := under.lies sender
      rw [there] at lies
      refine under_keeps profile before past log under sender link linked conn turns effects
        task_notes there ?_ _ ?_
      · exact keeps_tasked profile _ link linked _ conn task _ turns _ effects task_notes lies
          tasked beneath
      · intro other
        rw [underneath_dry profile link _ conn task turns effects beneath]
        split <;> rfl
  | other task swarm said apart stepped =>
      exact under_other profile before past log under task swarm said
        (step_unseen sha1 before.swarm swarm task said apart stepped)

variable (profile : Profile) (sha1 : Bytes → Hash) (manager : DownloadManager)
  (acts : List WiredAct) (finish : Wired) (log : List WiredNote)

theorem run_under (ran : run (wired profile sha1) (Wired.new manager) acts = some (finish, log)) :
    Under profile finish acts log := by
  refine run_history (wired profile sha1) (Wired.new manager) acts
    (fun past state log => Under profile state past log) (under_new profile manager) ?_ acts
    (List.prefix_refl acts) finish log ran
  intro past act before said after notes _ _ under stepped
  exact under_step profile sha1 before after past act said notes under
    (wired_step_moved profile sha1 before after act notes stepped)

/-- Each message read is what the parser makes of a body that has come in. -/
def ReadsParsed (profile : Profile) (log : List WiredNote) (plain : List Act) : Prop :=
  ∀ sender message, .task sender (.read message) ∈ plain →
    ∃ body ∈ frames (effectsOf sender log), ∃ left,
      Message.deserialize profile body = .ok (message, left)

theorem reads_parsed_append (log more : List WiredNote) (plain next : List Act)
    (before : ReadsParsed profile log plain)
    (after : ∀ sender message, .task sender (.read message) ∈ next →
      ∃ body ∈ frames (effectsOf sender more), ∃ left,
        Message.deserialize profile body = .ok (message, left)) :
    ReadsParsed profile (log ++ more) (plain ++ next) := by
  intro sender message member
  rw [effects_of_append, frames_append]
  rcases List.mem_append.mp member with old | new
  · obtain ⟨body, inside, left, parsed⟩ := before sender message old
    exact ⟨body, List.mem_append_left _ inside, left, parsed⟩
  · obtain ⟨body, inside, left, parsed⟩ := after sender message new
    exact ⟨body, List.mem_append_right _ inside, left, parsed⟩

/-- Seen message by message, a run over the streams is a run of the program. -/
theorem run_projects
    (ran : run (wired profile sha1) (Wired.new manager) acts = some (finish, log)) :
    ∃ plain, run (program sha1) (Swarm.new manager) plain = some (finish.swarm, notesOf log) ∧
      ReadsParsed profile log plain := by
  obtain ⟨plain, notes, goes, rfl, parsed⟩ : ∃ plain notes,
      run (program sha1) (Swarm.new manager) plain = some (finish.swarm, notes) ∧
        notes = notesOf log ∧ ReadsParsed profile log plain := by
    refine run_simulates (wired profile sha1) (program sha1) Wired.swarm
      (fun _ _ log plain notes => notes = notesOf log ∧ ReadsParsed profile log plain)
      (Wired.new manager) acts ⟨rfl, nofun⟩ ?_ finish log ran
    rintro past act before said after notes plain - - - ⟨rfl, parsed⟩ stepped
    simp only [notes_of_append]
    cases wired_step_moved profile sha1 before after act notes stepped with
    | arrived | polled =>
        refine ⟨[], [], rfl, ?_, reads_parsed_append profile _ _ plain [] parsed nofun⟩
        rw [notes_of_labels]
    | parsed sender count stale link session conn next effects body rest swarm emitted there stands
        held selects turned whole went =>
        refine ⟨[.task sender (parsedAct profile body)], emitted,
          run_one (program sha1) before.swarm swarm _ emitted went, ?_,
          reads_parsed_append profile _ _ plain _ parsed ?_⟩
        · rw [notes_of_append, notes_of_labels, notes_of_notes, List.nil_append]
        · intro other message member
          obtain ⟨rfl, same⟩ : other = sender ∧ .read message = parsedAct profile body := by
            simpa using member
          rw [effects_of_append, effects_of_labels, if_pos rfl, frames_append, whole]
          refine ⟨body, List.mem_append_left _ List.mem_cons_self, ?_⟩
          unfold parsedAct at same
          split at same
          · rename_i heard left made
            obtain rfl := TaskAct.read.inj same
            exact ⟨left, made⟩
          · cases same
          · cases same
          · cases same
    | tasked sender task link conn turns effects swarm emitted there beneath went =>
        refine ⟨[.task sender task], emitted,
          run_one (program sha1) before.swarm swarm _ emitted went, ?_,
          reads_parsed_append profile _ _ plain _ parsed ?_⟩
        · rw [notes_of_append, notes_of_labels, notes_of_notes, List.nil_append]
        · intro other message member
          obtain ⟨rfl, rfl⟩ : other = sender ∧ .read message = task := by simpa using member
          rw [underneath_read] at beneath
          cases beneath
    | other task swarm emitted apart went =>
        refine ⟨[task], emitted, run_one (program sha1) before.swarm swarm _ emitted went, ?_,
          reads_parsed_append profile _ _ plain _ parsed ?_⟩
        · rw [notes_of_notes]
        · intro sender message member
          exact (apart sender _ (List.mem_singleton.mp member).symm).elim
  exact ⟨plain, goes, parsed⟩

/-- The program over its streams refines both: message by message it is a run of the program
that reads only what was parsed, and every connection that has shared its bitfield has run
its own loop on the bytes that came in for it, with the events and the messages of that run. -/
theorem wired_refines
    (ran : run (wired profile sha1) (Wired.new manager) acts = some (finish, log)) :
    (∃ plain, run (program sha1) (Swarm.new manager) plain = some (finish.swarm, notesOf log) ∧
      ReadsParsed profile log plain) ∧
    ∀ (sender : Sender) (link : Link) (session : Session),
      finish.swarm.peerManager.links[sender]? = some link → link.session = some session →
      session.greeting = none →
      ∃ turns conn effects, finish.streams sender = some conn ∧
        runFrom profile link.bitfield turns = some (conn, effects) ∧
        arrived turns = bytesTo sender acts ∧ conn.state = session.state ∧
        effects.filterMap Conversation.eventOf = raisedBy sender (notesOf log) ∧
        OutboundStream.handled link.bitfield turns = serializedBy sender (notesOf log) := by
  have under := run_under profile sha1 manager acts finish log ran
  refine ⟨run_projects profile sha1 manager acts finish log ran, ?_⟩
  intro sender link session there stands shared
  have lies := under.lies sender
  rw [there] at lies
  obtain ⟨conn, held⟩ := lies_stream profile link session _ _ _ lies stands
  rw [held] at lies
  obtain ⟨-, loops, -, same⟩ := lies_talking profile link session conn _ _ lies stands shared
  refine ⟨_, conn, _, held, loops, under.arrives sender, same, under.raises sender, ?_⟩
  rw [under.writes sender, there, Option.elim_some, greeted, stands]
  simp only [shared, Option.isSome_none, Bool.false_eq_true, if_false]
  cases link.bitfield <;> rfl

/-- A registered peer is told our bitfield and sends the news of piece 257, which is heard as
the end of the choking. -/
def newsComes : List WiredAct :=
  [.act (.addPeer default (some [0])), .act (.register default), .act .start,
    .act (.task 0 .connected), .act (.task 0 .greet), .arrive 0 (Message.havePiece 257).serialize,
    .poll 0 4 [0, 0, 0, 0, 0], .poll 0 5 [], .act (.task 0 .emit), .act (.task 0 .receive),
    .act (.forward 0), .act (.handle default), .act .check]

theorem wired_refines_news :
    ∃ finish log, run (wired .wrapping DownloadSafety.zeroHash) (Wired.new smallManager) newsComes =
        some (finish, log) ∧
      handledIn (notesOf log) = [⟨.peerUnchoked, default, 0⟩] ∧
      (∃ plain, run (program DownloadSafety.zeroHash) (Swarm.new smallManager) plain =
          some (finish.swarm, notesOf log) ∧ ReadsParsed .wrapping log plain) ∧
      ∀ (sender : Sender) (link : Link) (session : Session),
        finish.swarm.peerManager.links[sender]? = some link → link.session = some session →
        session.greeting = none →
        ∃ turns conn effects, finish.streams sender = some conn ∧
          runFrom .wrapping link.bitfield turns = some (conn, effects) ∧
          arrived turns = bytesTo sender newsComes ∧ conn.state = session.state ∧
          effects.filterMap Conversation.eventOf = raisedBy sender (notesOf log) ∧
          OutboundStream.handled link.bitfield turns = serializedBy sender (notesOf log) :=
  ⟨_, _, rfl, rfl, wired_refines .wrapping DownloadSafety.zeroHash smallManager newsComes _ _ rfl⟩

end Runs

end MotteSeed.WiredProgram
