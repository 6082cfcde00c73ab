import MotteSeed.Conversation
import MotteSeed.Downloads
import MotteSeed.Toolkit.Channel

/-! What `PeerManager::add_peer` spawns for one address: the task that connects and then
forwards events, the task that runs the connection, and the two channels between them
and the managers. Reading from the peer is left to the environment, message by message. -/
namespace MotteSeed.PeerTasks
open Toolkit Toolkit.HashTable Toolkit.Channels PeerWire PeerConnection PieceStore Conversation
  Downloads

inductive Forwarder where
  | connecting
  | receiving
  | forwarding (event : PeerEvent)
  | finished
  deriving DecidableEq

/-- The connection task. `greeting` is the bitfield that `run` has still to share, and
`unsent` the events of the message in hand that are not on the channel yet. -/
structure Session where
  state : PeerState
  greeting : Option Bytes
  unsent : List PeerEvent
  outcome : Option Outcome

structure Link where
  peerIp : PeerIp
  bitfield : Option Bytes
  forwarder : Forwarder
  session : Option Session
  events : Channel PeerEvent 100
  commands : Channel ManagerCommand 100

def Link.new (peerIp : PeerIp) (bitfield : Option Bytes) : Link :=
  { peerIp, bitfield, forwarder := .connecting, session := none, events := .new, commands := .new }

inductive TaskAct where
  | connected
  | refused
  | greet
  | take
  | commandsClosed
  | read (message : Message)
  | emit
  | fails (reason : ConnectionError)
  | panics
  | receive
  | drained

/-- What a task lets be seen: an event of the conversation, or a message that it serializes
into its buffer. What goes to the peer is the whole buffer, with what was in it before. -/
inductive TaskNote where
  | raised (event : PeerEvent)
  | serialized (message : Message)
  deriving DecidableEq

def Session.new (bitfield : Option Bytes) : Session :=
  { state := PeerState.new none, greeting := bitfield, unsent := [], outcome := none }

def Session.selects (session : Session) : Bool :=
  session.outcome.isNone && session.greeting.isNone && session.unsent.isEmpty

/-- The channel of commands still has its receiver, in the connection or in the future that
makes it. -/
def Link.listening (link : Link) : Bool :=
  match link.forwarder, link.session with
  | .connecting, _ => true
  | _, some session => session.outcome.isNone
  | _, none => false

def Link.withSession (link : Link) (session : Session) : Link :=
  { link with session := some session }

def Session.ended (session : Session) (outcome : Outcome) : Session :=
  { session with outcome := some outcome }

/-- One turn of the connection task. `held` says that somebody still holds a sender of its
command channel. -/
def sessionStep (held : Bool) (link : Link) (session : Session) :
    TaskAct → Option (Link × List TaskNote)
  | .greet =>
      match session.outcome, session.greeting with
      | none, some bitfield =>
          some (link.withSession { session with greeting := none },
            [.serialized (.bitfield bitfield)])
      | _, _ => none
  | .take =>
      if session.selects then
        match link.commands.recv with
        | some (command, rest) =>
            some ({ link with
              session := some { session with state := (talk session.state (.commanded command)).1 }
              commands := rest }, (commandMessage command).toList.map .serialized)
        | none => none
      else none
  | .commandsClosed =>
      if session.selects ∧ link.commands.queue = [] ∧ held = false then
        some (link.withSession (session.ended (.returned (.ok ()))), [])
      else none
  | .read message =>
      if session.selects then
        let talked := talk session.state (.received message)
        some (link.withSession { session with state := talked.1, unsent := talked.2 },
          talked.2.map .raised)
      else none
  | .emit =>
      match session.outcome, session.unsent with
      | none, event :: rest =>
          -- Without its receiver the channel is closed, and `?` leaves `run`.
          if link.forwarder = .finished then
            some (link.withSession (session.ended (.returned (.error .sendError))), [])
          else
            (link.events.send event).map fun events =>
              ({ link with session := some { session with unsent := rest }, events := events }, [])
      | _, _ => none
  | .fails reason =>
      if session.outcome.isNone ∧ session.unsent = [] then
        some (link.withSession (session.ended (.returned (.error reason))), [])
      else none
  | .panics =>
      if session.outcome.isNone ∧ session.unsent = [] then
        some (link.withSession (session.ended .panicked), [])
      else none
  | .connected | .refused | .receive | .drained => none

def taskStep (held : Bool) (link : Link) (act : TaskAct) : Option (Link × List TaskNote) :=
  match act with
  | .connected =>
      if link.forwarder = .connecting then
        some ({ link with
          forwarder := .receiving, session := some (Session.new link.bitfield) }, [])
      else none
  | .refused =>
      if link.forwarder = .connecting then some ({ link with forwarder := .finished }, [])
      else none
  | .receive =>
      if link.forwarder = .receiving then
        link.events.recv.map fun received =>
          ({ link with forwarder := .forwarding received.1, events := received.2 }, [])
      else none
  | .drained =>
      match link.session with
      | some session =>
          -- `recv` yields `None` once the connection is dropped and nothing is left.
          if link.forwarder = .receiving ∧ session.outcome.isSome ∧ link.events.queue = [] then
            some ({ link with forwarder := .finished }, [])
          else none
      | none => none
  | _ =>
      match link.session with
      | some session => sessionStep held link session act
      | none => none

/-- `links` is everything `add_peer` has spawned so far, and a sender the place in it. The
peer id and the info hash are left out: how a handshake ends is up to the environment. -/
structure PeerManager where
  peerSenders : HashMap PeerIp Sender
  links : List Link

def PeerManager.new : PeerManager := ⟨∅, []⟩

def PeerManager.addPeer (manager : PeerManager) (peerIp : PeerIp) (bitfield : Option Bytes) :
    PeerManager :=
  { peerSenders := manager.peerSenders.insert peerIp manager.links.length
    links := manager.links ++ [Link.new peerIp bitfield] }

def PeerManager.getPeerSender (manager : PeerManager) (peerIp : PeerIp) : Option Sender :=
  manager.peerSenders.lookup peerIp

/-- Everything one enabled turn of the two tasks can do. The ways in which the connection
task ends are one case, which keeps what they have in common. -/
inductive Tasked (link : Link) : TaskAct → Link → List TaskNote → Prop where
  | connected (waiting : link.forwarder = .connecting) :
      Tasked link .connected
        { link with forwarder := .receiving, session := some (Session.new link.bitfield) } []
  | refused (waiting : link.forwarder = .connecting) :
      Tasked link .refused { link with forwarder := .finished } []
  | greet (session : Session) (bitfield : Bytes) (there : link.session = some session)
      (running : session.outcome = none) (unshared : session.greeting = some bitfield) :
      Tasked link .greet (link.withSession { session with greeting := none })
        [.serialized (.bitfield bitfield)]
  | take (session : Session) (command : ManagerCommand) (rest : Channel ManagerCommand 100)
      (there : link.session = some session) (selects : session.selects = true)
      (taken : link.commands.queue = command :: rest.queue) :
      Tasked link .take { link with commands := rest }
        ((commandMessage command).toList.map .serialized)
  | read (session : Session) (message : Message) (there : link.session = some session)
      (selects : session.selects = true) :
      Tasked link (.read message)
        (link.withSession { session with
          state := (handleMessage session.state message).1
          unsent := (handleMessage session.state message).2 })
        ((handleMessage session.state message).2.map .raised)
  | emit (session : Session) (event : PeerEvent) (rest : List PeerEvent)
      (events : Channel PeerEvent 100) (there : link.session = some session)
      (running : session.outcome = none) (next : session.unsent = event :: rest)
      (sent : events.queue = link.events.queue ++ [event])
      (listens : link.forwarder ≠ .finished) :
      Tasked link .emit
        { link with session := some { session with unsent := rest }, events := events } []
  | ended (act : TaskAct) (session : Session) (outcome : Outcome)
      (there : link.session = some session) (running : session.outcome = none)
      (why : session.unsent = [] ∨ link.forwarder = .finished) :
      Tasked link act (link.withSession (session.ended outcome)) []
  | receive (event : PeerEvent) (events : Channel PeerEvent 100)
      (ready : link.forwarder = .receiving) (taken : link.events.queue = event :: events.queue) :
      Tasked link .receive { link with forwarder := .forwarding event, events := events } []
  | drained (session : Session) (ready : link.forwarder = .receiving)
      (there : link.session = some session) (dropped : session.outcome.isSome = true)
      (empty : link.events.queue = []) :
      Tasked link .drained { link with forwarder := .finished } []

theorem selects_iff (session : Session) :
    session.selects = true ↔
      session.outcome = none ∧ session.greeting = none ∧ session.unsent = [] := by
  simp [Session.selects, and_assoc]

theorem session_step_tasked (held : Bool) (link after : Link) (session : Session)
    (act : TaskAct) (notes : List TaskNote) (there : link.session = some session)
    (stepped : sessionStep held link session act = some (after, notes)) :
    Tasked link act after notes := by
  cases act with
  | connected | refused | receive | drained => cases stepped
  | greet =>
      simp only [sessionStep] at stepped
      split at stepped
      · rename_i bitfield running unshared
        obtain ⟨rfl, rfl⟩ := Prod.mk.inj (Option.some.inj stepped)
        exact .greet session bitfield there running unshared
      · cases stepped
  | take =>
      simp only [sessionStep] at stepped
      split at stepped
      · rename_i selects
        cases received : link.commands.recv with
        | none => simp [received] at stepped
        | some pair =>
            obtain ⟨command, rest⟩ := pair
            rw [received] at stepped
            obtain ⟨rfl, rfl⟩ := Prod.mk.inj (Option.some.inj stepped)
            have taken := (recv_some_iff link.commands rest command).mp received
            have same : { link with session := some session, commands := rest } =
                { link with commands := rest } := by rw [there]
            rw [show (talk session.state (.commanded command)).1 = session.state from rfl, same]
            exact .take session command rest there selects taken
      · cases stepped
  | commandsClosed =>
      simp only [sessionStep] at stepped
      split at stepped
      · rename_i able
        obtain ⟨rfl, rfl⟩ := Prod.mk.inj (Option.some.inj stepped)
        obtain ⟨running, -, nothing⟩ := (selects_iff session).mp able.1
        exact .ended _ session _ there running (Or.inl nothing)
      · cases stepped
  | read message =>
      simp only [sessionStep] at stepped
      split at stepped
      · rename_i selects
        obtain ⟨rfl, rfl⟩ := Prod.mk.inj (Option.some.inj stepped)
        exact .read session message there selects
      · cases stepped
  | emit =>
      simp only [sessionStep] at stepped
      split at stepped
      · rename_i event rest running next
        split at stepped
        · rename_i gone
          obtain ⟨rfl, rfl⟩ := Prod.mk.inj (Option.some.inj stepped)
          exact .ended _ session _ there running (Or.inr gone)
        · rename_i listens
          obtain ⟨events, sent, same⟩ := Option.map_eq_some_iff.mp stepped
          obtain ⟨rfl, rfl⟩ := Prod.mk.inj same
          have grown := (send_some_iff link.events events event).mp sent
          exact .emit session event rest events there running next grown listens
      · cases stepped
  | fails reason =>
      simp only [sessionStep] at stepped
      split at stepped
      · rename_i able
        obtain ⟨rfl, rfl⟩ := Prod.mk.inj (Option.some.inj stepped)
        exact .ended _ session _ there (Option.isNone_iff_eq_none.mp able.1) (Or.inl able.2)
      · cases stepped
  | panics =>
      simp only [sessionStep] at stepped
      split at stepped
      · rename_i able
        obtain ⟨rfl, rfl⟩ := Prod.mk.inj (Option.some.inj stepped)
        exact .ended _ session _ there (Option.isNone_iff_eq_none.mp able.1) (Or.inl able.2)
      · cases stepped

theorem task_step_tasked (held : Bool) (link after : Link) (act : TaskAct)
    (notes : List TaskNote) (stepped : taskStep held link act = some (after, notes)) :
    Tasked link act after notes := by
  cases act with
  | connected =>
      simp only [taskStep] at stepped
      split at stepped
      · rename_i waiting
        obtain ⟨rfl, rfl⟩ := Prod.mk.inj (Option.some.inj stepped)
        exact .connected waiting
      · cases stepped
  | refused =>
      simp only [taskStep] at stepped
      split at stepped
      · rename_i waiting
        obtain ⟨rfl, rfl⟩ := Prod.mk.inj (Option.some.inj stepped)
        exact .refused waiting
      · cases stepped
  | receive =>
      simp only [taskStep] at stepped
      split at stepped
      · rename_i ready
        obtain ⟨⟨event, events⟩, received, same⟩ := Option.map_eq_some_iff.mp stepped
        obtain ⟨rfl, rfl⟩ := Prod.mk.inj same
        exact .receive event events ready ((recv_some_iff link.events events event).mp received)
      · cases stepped
  | drained =>
      simp only [taskStep] at stepped
      split at stepped
      · rename_i session there
        split at stepped
        · rename_i able
          obtain ⟨rfl, rfl⟩ := Prod.mk.inj (Option.some.inj stepped)
          exact .drained session able.1 there able.2.1 able.2.2
        · cases stepped
      · cases stepped
  | greet | take | commandsClosed | read | emit | fails | panics =>
      cases there : link.session with
      | none => simp [taskStep, there] at stepped
      | some session =>
          simp only [taskStep, there] at stepped
          exact session_step_tasked held link after session _ notes there stepped

section Afloat

def Forwarder.holding : Forwarder → List PeerEvent
  | .forwarding event => [event]
  | .connecting | .receiving | .finished => []

def Link.unsent (link : Link) : List PeerEvent :=
  match link.session with
  | some session => session.unsent
  | none => []

def Link.afloat (link : Link) : List PeerEvent :=
  link.forwarder.holding ++ link.events.queue ++ link.unsent

def raisedEvent : TaskNote → Option PeerEvent
  | .raised event => some event
  | .serialized _ => none

/-- The order in which the two tasks end, as long as the download channel is open. -/
structure Orderly (link : Link) : Prop where
  unconnected : link.forwarder = .connecting → link.session = none ∧ link.events.queue = []
  spoken : ∀ session, link.session = some session → session.outcome.isSome = true →
    session.unsent = []
  relayed : link.forwarder = .finished → link.events.queue = [] ∧
    ∀ session, link.session = some session → session.outcome.isSome = true

theorem orderly_new (peerIp : PeerIp) (bitfield : Option Bytes) :
    Orderly (Link.new peerIp bitfield) := by
  refine ⟨fun _ => ⟨rfl, rfl⟩, ?_, ?_⟩
  · intro session there
    cases there
  · intro finished
    cases finished

theorem orderly_finished_afloat (link : Link) (orderly : Orderly link)
    (finished : link.forwarder = .finished) : link.afloat = [] := by
  obtain ⟨empty, gone⟩ := orderly.relayed finished
  unfold Link.afloat Link.unsent
  rw [finished, empty]
  cases there : link.session with
  | none => rfl
  | some session => exact orderly.spoken session there (gone session there)

theorem orderly_running (link : Link) (session : Session) (orderly : Orderly link)
    (there : link.session = some session) (running : session.outcome = none) :
    link.forwarder ≠ .connecting ∧ link.forwarder ≠ .finished := by
  constructor
  · intro connecting
    rw [(orderly.unconnected connecting).1] at there
    cases there
  · intro finished
    have gone := (orderly.relayed finished).2 session there
    rw [running] at gone
    cases gone

theorem orderly_between (link : Link)
    (between : link.forwarder ≠ .connecting ∧ link.forwarder ≠ .finished)
    (spoken : ∀ session, link.session = some session → session.outcome.isSome = true →
      session.unsent = []) : Orderly link :=
  ⟨fun connecting => (between.1 connecting).elim, spoken,
    fun finished => (between.2 finished).elim⟩

theorem running_spoken (session : Session) (running : session.outcome = none)
    (other : Session) (same : some session = some other) (gone : other.outcome.isSome = true) :
    other.unsent = [] := by
  obtain rfl := Option.some.inj same
  rw [running] at gone
  cases gone

theorem tasked_orderly (link after : Link) (act : TaskAct) (notes : List TaskNote)
    (tasked : Tasked link act after notes) (orderly : Orderly link) : Orderly after := by
  cases tasked with
  | connected waiting =>
      exact orderly_between _ ⟨nofun, nofun⟩ (running_spoken (Session.new link.bitfield) rfl)
  | refused waiting =>
      obtain ⟨unconnected, empty⟩ := orderly.unconnected waiting
      refine ⟨nofun, orderly.spoken, fun _ => ⟨empty, fun session there => ?_⟩⟩
      rw [show link.session = some session from there] at unconnected
      cases unconnected
  | greet session bitfield there running =>
      exact orderly_between _ (orderly_running link session orderly there running)
        (running_spoken { session with greeting := none } running)
  | take => exact ⟨orderly.unconnected, orderly.spoken, orderly.relayed⟩
  | read session message there selects =>
      obtain ⟨running, -, -⟩ := (selects_iff session).mp selects
      refine orderly_between _ (orderly_running link session orderly there running) ?_
      exact running_spoken _ running
  | emit session event rest events there running =>
      exact orderly_between _ (orderly_running link session orderly there running)
        (running_spoken { session with unsent := rest } running)
  | ended _ session outcome there running why =>
      have between := orderly_running link session orderly there running
      refine orderly_between _ between ?_
      rintro other same -
      obtain rfl := Option.some.inj same
      exact why.resolve_right between.2
  | receive event events ready taken =>
      exact orderly_between _ ⟨nofun, nofun⟩ orderly.spoken
  | drained session ready there dropped empty =>
      refine ⟨nofun, orderly.spoken, fun _ => ⟨empty, fun other same => ?_⟩⟩
      obtain rfl := Option.some.inj (there.symm.trans same)
      exact dropped

/-- No turn of the two tasks loses an event, adds one unsaid or puts two in another order. -/
theorem tasked_afloat (link after : Link) (act : TaskAct) (notes : List TaskNote)
    (tasked : Tasked link act after notes) (orderly : Orderly link) :
    after.afloat = link.afloat ++ notes.filterMap raisedEvent := by
  cases tasked with
  | connected waiting =>
      obtain ⟨unconnected, empty⟩ := orderly.unconnected waiting
      simp [Link.afloat, Link.unsent, Forwarder.holding, waiting, unconnected, Session.new]
  | refused waiting => simp [Link.afloat, Link.unsent, Forwarder.holding, waiting]
  | greet session bitfield there =>
      simp [Link.afloat, Link.unsent, Link.withSession, there, raisedEvent]
  | take session command rest there =>
      have silent :
          ((commandMessage command).toList.map TaskNote.serialized).filterMap raisedEvent = [] := by
        rw [List.filterMap_map]
        exact List.filterMap_eq_nil_iff.mpr fun _ _ => rfl
      rw [silent, List.append_nil]
      rfl
  | read session message there selects =>
      obtain ⟨-, -, nothing⟩ := (selects_iff session).mp selects
      have events : ((handleMessage session.state message).2.map TaskNote.raised).filterMap
          raisedEvent = (handleMessage session.state message).2 := by
        rw [List.filterMap_map]
        exact List.filterMap_some
      rw [events]
      simp [Link.afloat, Link.unsent, Link.withSession, there, nothing]
  | emit session event rest events there running next sent =>
      simp [Link.afloat, Link.unsent, there, next, sent]
  | ended _ session outcome there =>
      simp [Link.afloat, Link.unsent, Link.withSession, Session.ended, there]
  | receive event events ready taken =>
      simp [Link.afloat, Link.unsent, Forwarder.holding, ready, taken]
  | drained session ready there => simp [Link.afloat, Link.unsent, Forwarder.holding, ready]

theorem message_events_no_disconnect (state : PeerState) (message : Message) :
    .peerDisconnected ∉ (handleMessage state message).2 := by
  cases message <;> simp [handleMessage]

theorem tasked_no_disconnect (link after : Link) (act : TaskAct) (notes : List TaskNote)
    (tasked : Tasked link act after notes) :
    TaskNote.raised .peerDisconnected ∉ notes := by
  cases tasked with
  | read session message => simpa using message_events_no_disconnect session.state message
  | take session command => simp
  | greet => simp
  | connected | refused | emit | ended | receive | drained => exact List.not_mem_nil

end Afloat

end MotteSeed.PeerTasks
