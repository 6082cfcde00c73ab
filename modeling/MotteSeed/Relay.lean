import MotteSeed.PeerTracking
import MotteSeed.Toolkit.Simulation

/-! The whole program against the download manager alone. However the tasks and the loop
interleave, the manager goes through a run of its own, over the events in the order in
which they reach it; every connection's events arrive in the order in which they were
raised, and every connection serializes its commands in the order in which they were issued. -/
namespace MotteSeed.Relay
open Toolkit Toolkit.HashTable Toolkit.Runs Toolkit.Channels PeerWire PeerConnection TorrentMeta
  PieceStore DownloadSafety Downloads Availability PeerTasks Program PeerTracking

section Answers

inductive Answers (choice : Choice) (manager : DownloadManager) :
    PeerEvent → PeerIp → List (Sender × ManagerCommand) → Prop where
  | nothing (event : PeerEvent) (peerIp : PeerIp) : Answers choice manager event peerIp []
  | interested (bitfield : Bytes) (peerIp : PeerIp) (sender : Sender) (record : Option Bytes)
      (known : manager.peers.lookup peerIp = some (sender, record)) :
      Answers choice manager (.receivedBitfield bitfield) peerIp [(sender, .interested)]
  | requested (peerIp : PeerIp) (sender : Sender) (record : Option Bytes)
      (index begin length : UInt32)
      (known : manager.peers.lookup peerIp = some (sender, record)) :
      Answers choice manager .peerUnchoked peerIp [(sender, .requestBlock index begin length)]
  | announced (index begin : UInt32) (block : Bytes) (peerIp : PeerIp) :
      Answers choice manager (.receivedPiece index begin block) peerIp
        ((choice.peerOrder.arrange manager.peers.entries).map fun peer =>
          (peer.2.1, .havePiece index))

variable (sha1 : Bytes → Hash) (choice : Choice) (manager : DownloadManager)

theorem stored_sender (peerIp : PeerIp) (bitfield : Bytes) (sender : Sender)
    (record : Option Bytes)
    (found : (modify manager.peers peerIp fun peer => (peer.1, some bitfield)).lookup peerIp =
      some (sender, record)) :
    ∃ old, manager.peers.lookup peerIp = some (sender, old) := by
  rw [lookup_modify_self] at found
  obtain ⟨⟨_, old⟩, known, same⟩ := Option.map_eq_some_iff.mp found
  obtain ⟨rfl, -⟩ := Prod.mk.inj same
  exact ⟨old, known⟩

theorem bitfield_answers (peerIp : PeerIp) (bitfield : Bytes) :
    Answers choice manager (.receivedBitfield bitfield) peerIp
      ((handleBitfield choice manager peerIp bitfield).2.filterMap commandOf) := by
  simp only [handleBitfield]
  split
  · simp only [sendToPeer]
    split
    · rename_i sender record found
      obtain ⟨old, known⟩ := stored_sender manager peerIp bitfield sender record found
      exact .interested bitfield peerIp sender old known
    · exact .nothing _ _
  · exact .nothing _ _

theorem unchoke_answers (peerIp : PeerIp) :
    Answers choice manager .peerUnchoked peerIp
      ((handleUnchoke choice manager peerIp).2.filterMap commandOf) := by
  rcases unchoke_cases choice manager peerIp with
    ⟨idle, -⟩ | ⟨index, piece, offset, block, -, -, -, -, -, -, asked⟩
  · rw [idle]
    exact .nothing _ _
  · rw [asked]
    simp only [sendToPeer]
    split
    · rename_i sender record known
      exact .requested peerIp sender record index _ _ known
    · exact .nothing _ _

theorem piece_answers (peerIp : PeerIp) (index begin : UInt32) (block : Bytes) :
    Answers choice manager (.receivedPiece index begin block) peerIp
      ((handleRecievePiece sha1 choice manager index begin.toNat block).2.filterMap
        commandOf) := by
  have handled := handle_recieved sha1 choice manager index begin.toNat block
  generalize handleRecievePiece sha1 choice manager index begin.toNat block = done at handled ⊢
  obtain ⟨after, actions⟩ := done
  cases handled with
  | unknown | kept | failed => exact .nothing _ _
  | wrote piece data found =>
      have told : (broadcastHave choice
          (withBlock sha1 manager index begin.toNat block) index).filterMap commandOf =
          (choice.peerOrder.arrange manager.peers.entries).map fun peer =>
            (peer.2.1, .havePiece index) := by
        rw [broadcastHave, List.filterMap_map, ← List.filterMap_eq_map]
        rfl
      rw [List.filterMap_cons_none rfl, told]
      exact .announced index begin block peerIp

theorem event_answers (event : PeerEvent) (peerIp : PeerIp) :
    Answers choice manager event peerIp
      ((handleEvent sha1 choice manager event peerIp).2.filterMap commandOf) := by
  cases event with
  | receivedBitfield bitfield => exact bitfield_answers choice manager peerIp bitfield
  | peerUnchoked => exact unchoke_answers choice manager peerIp
  | receivedPiece index begin block =>
      exact piece_answers sha1 choice manager peerIp index begin block
  | receivedHave | peerDisconnected | peerChoked | peerInterested | peerNotInterested
  | requestedBlock | downloadRate => exact .nothing _ _

theorem answers_known (event : PeerEvent) (peerIp : PeerIp)
    (commands : List (Sender × ManagerCommand))
    (answers : Answers choice manager event peerIp commands) (sender : Sender)
    (command : ManagerCommand) (member : (sender, command) ∈ commands) :
    ∃ known record, manager.peers.lookup known = some (sender, record) := by
  cases answers with
  | nothing => cases member
  | interested bitfield _ other record known | requested _ other record index begin length known =>
      obtain ⟨rfl, -⟩ := Prod.mk.inj (List.mem_singleton.mp member)
      exact ⟨peerIp, record, known⟩
  | announced index begin block =>
      obtain ⟨⟨known, other, record⟩, listed, same⟩ := List.mem_map.mp member
      obtain ⟨rfl, -⟩ := Prod.mk.inj same
      have entry := (choice.peerOrder.perm manager.peers.entries).mem_iff.mp listed
      exact ⟨known, record, AList.mem_lookup_iff.mpr entry⟩

end Answers

section Links

def commandsFor (sender : Sender) (commands : List (Sender × ManagerCommand)) :
    List ManagerCommand :=
  commands.filterMap fun command => if command.1 = sender then some command.2 else none

theorem commands_for_append (sender : Sender) (first second : List (Sender × ManagerCommand)) :
    commandsFor sender (first ++ second) = commandsFor sender first ++ commandsFor sender second :=
  List.filterMap_append

theorem commands_for_cons (sender : Sender) (command : Sender × ManagerCommand)
    (rest : List (Sender × ManagerCommand)) :
    commandsFor sender (command :: rest) =
      if command.1 = sender then command.2 :: commandsFor sender rest
      else commandsFor sender rest := by
  unfold commandsFor
  rw [List.filterMap_cons]
  split <;> rename_i same <;> split at same <;> simp_all

theorem mem_commands_for (sender : Sender) (commands : List (Sender × ManagerCommand))
    (command : ManagerCommand) :
    command ∈ commandsFor sender commands ↔ (sender, command) ∈ commands := by
  simp only [commandsFor, List.mem_filterMap]
  constructor
  · rintro ⟨⟨other, issued⟩, member, same⟩
    split at same
    · rename_i mine
      obtain rfl := Option.some.inj same
      rwa [← show other = sender from mine]
    · cases same
  · intro member
    exact ⟨_, member, if_pos rfl⟩

def Unheard (link : Link) : Prop :=
  ∀ session, link.session = some session → session.greeting.isSome = true

def greeted (link : Link) : List Message :=
  match link.session with
  | some session =>
      if session.greeting.isSome then [] else link.bitfield.toList.map .bitfield
  | none => []

def serializedMessage : TaskNote → Option Message
  | .serialized message => some message
  | .raised _ => none

/-- What a connection has `wrote`, against the commands that were `asked` of it and those
of them that are still `pending` at the loop. -/
structure Speaks (link : Link) (wrote : List Message) (asked pending : List ManagerCommand) :
    Prop where
  fresh : link.forwarder = .connecting → link.session = none
  given : ∀ session bitfield, link.session = some session → session.greeting = some bitfield →
    link.bitfield = some bitfield
  balance : ∃ taken lost, wrote = greeted link ++ taken.filterMap commandMessage ∧
    asked = taken ++ (link.commands.queue ++ (lost ++ pending)) ∧
    (link.listening = true → lost = []) ∧ (Unheard link → taken = [])

theorem speaks_new (peerIp : PeerIp) (bitfield : Option Bytes) :
    Speaks (Link.new peerIp bitfield) [] [] [] :=
  ⟨fun _ => rfl, nofun, [], [], rfl, rfl, fun _ => rfl, fun _ => rfl⟩

theorem listening_iff (link : Link) :
    link.listening = true ↔ link.forwarder = .connecting ∨
      ∃ session, link.session = some session ∧ session.outcome = none := by
  unfold Link.listening
  split
  · rename_i connecting
    exact iff_of_true rfl (Or.inl connecting)
  · rename_i session there connected
    simp [there, show link.forwarder ≠ .connecting from connected]
  · rename_i there connected
    simp [there, show link.forwarder ≠ .connecting from connected]

theorem tasked_listening (link after : Link) (act : TaskAct) (notes : List TaskNote)
    (tasked : Tasked link act after notes) (listens : after.listening = true) :
    link.listening = true := by
  rw [listening_iff] at listens ⊢
  cases tasked with
  | connected waiting | refused waiting => exact Or.inl waiting
  | take => exact listens
  | greet session bitfield there running | emit session event rest events there running
  | ended _ session outcome there running => exact Or.inr ⟨session, there, running⟩
  | read session message there selects =>
      exact Or.inr ⟨session, there, ((selects_iff session).mp selects).1⟩
  | receive event events ready | drained session ready =>
      exact Or.inr (listens.resolve_left nofun)

theorem raised_nothing_written (events : List PeerEvent) :
    (events.map TaskNote.raised).filterMap serializedMessage = [] := by
  rw [List.filterMap_map]
  exact List.filterMap_eq_nil_iff.mpr fun _ _ => rfl

theorem serialized_messages (messages : List Message) :
    (messages.map TaskNote.serialized).filterMap serializedMessage = messages := by
  rw [List.filterMap_map]
  exact List.filterMap_some

theorem speaks_kept (link after : Link) (wrote : List Message)
    (asked pending : List ManagerCommand) (speaks : Speaks link wrote asked pending)
    (fresh : after.forwarder = .connecting → after.session = none)
    (given : ∀ session bitfield, after.session = some session →
      session.greeting = some bitfield → after.bitfield = some bitfield)
    (commands : after.commands = link.commands) (shared : greeted after = greeted link)
    (listens : after.listening = true → link.listening = true)
    (unheard : Unheard after → Unheard link) : Speaks after wrote asked pending := by
  obtain ⟨-, -, taken, lost, said, issued, kept, silent⟩ := speaks
  refine ⟨fresh, given, taken, lost, ?_, ?_, fun on => kept (listens on),
    fun yet => silent (unheard yet)⟩
  · rw [shared]
    exact said
  · rw [commands]
    exact issued

theorem speaks_session (link after : Link) (session next : Session) (wrote : List Message)
    (asked pending : List ManagerCommand) (speaks : Speaks link wrote asked pending)
    (there : link.session = some session) (now : after.session = some next)
    (forwarder : after.forwarder = link.forwarder)
    (greeting : next.greeting = session.greeting) (bitfield : after.bitfield = link.bitfield)
    (commands : after.commands = link.commands)
    (listens : after.listening = true → link.listening = true) :
    Speaks after wrote asked pending := by
  refine speaks_kept link after wrote asked pending speaks ?_ ?_ commands ?_ listens ?_
  · intro connecting
    rw [speaks.fresh (forwarder.symm.trans connecting)] at there
    cases there
  · intro other value same unshared
    obtain rfl := Option.some.inj (now.symm.trans same)
    rw [bitfield]
    exact speaks.given session value there (greeting.symm.trans unshared)
  · simp only [greeted, there, now, greeting, bitfield]
  · intro unheard other same
    obtain rfl := Option.some.inj (there.symm.trans same)
    rw [← greeting]
    exact unheard next now

theorem tasked_speaks (link after : Link) (act : TaskAct) (notes : List TaskNote)
    (tasked : Tasked link act after notes) (wrote : List Message)
    (asked pending : List ManagerCommand) (speaks : Speaks link wrote asked pending) :
    Speaks after (wrote ++ notes.filterMap serializedMessage) asked pending := by
  have listens := tasked_listening link after act notes tasked
  cases tasked with
  | connected waiting =>
      obtain ⟨fresh, -, taken, lost, said, issued, kept, silent⟩ := speaks
      have unconnected := fresh waiting
      have unheard : Unheard link := by
        intro session there
        rw [unconnected] at there
        cases there
      obtain rfl := silent unheard
      refine ⟨by simp, ?_, [], lost, ?_, issued, fun on => kept (listens on), fun _ => rfl⟩
      · rintro session bitfield ⟨⟩ unshared
        exact unshared
      · rw [said]
        simp [greeted, unconnected, Session.new]
        cases link.bitfield <;> rfl
  | refused waiting =>
      rw [show List.filterMap serializedMessage [] = [] from rfl, List.append_nil]
      exact speaks_kept link _ wrote asked pending speaks (by simp) speaks.given rfl rfl listens id
  | greet session bitfield there running unshared =>
      obtain ⟨fresh, given, taken, lost, said, issued, kept, silent⟩ := speaks
      have unheard : Unheard link := by
        intro other same
        obtain rfl := Option.some.inj (there.symm.trans same)
        rw [unshared]
        rfl
      obtain rfl := silent unheard
      refine ⟨?_, ?_, [], lost, ?_, issued, fun on => kept (listens on), fun _ => rfl⟩
      · intro connecting
        rw [fresh connecting] at there
        cases there
      · rintro other value ⟨⟩ nothing
        cases nothing
      · rw [said]
        simp [greeted, there, unshared, Link.withSession, given session bitfield there unshared,
          serializedMessage]
  | take session command rest there selects taken =>
      obtain ⟨fresh, given, past, lost, said, issued, kept, silent⟩ := speaks
      obtain ⟨running, shared, -⟩ := (selects_iff session).mp selects
      refine ⟨fresh, given, past ++ [command], lost, ?_, ?_, fun on => kept (listens on), ?_⟩
      · rw [serialized_messages, said, List.filterMap_append, List.append_assoc]
        rfl
      · rw [issued, taken]
        simp
      · intro unheard
        have greeting := unheard session there
        rw [shared] at greeting
        cases greeting
  | read session message there selects =>
      rw [raised_nothing_written, List.append_nil]
      exact speaks_session link _ session _ wrote asked pending speaks there rfl rfl rfl rfl
        rfl listens
  | emit session event rest events there =>
      rw [show List.filterMap serializedMessage [] = [] from rfl, List.append_nil]
      exact speaks_session link _ session _ wrote asked pending speaks there rfl rfl rfl rfl
        rfl listens
  | ended _ session outcome there =>
      rw [show List.filterMap serializedMessage [] = [] from rfl, List.append_nil]
      exact speaks_session link _ session _ wrote asked pending speaks there rfl rfl rfl rfl
        rfl listens
  | receive event events ready =>
      rw [show List.filterMap serializedMessage [] = [] from rfl, List.append_nil]
      exact speaks_kept link _ wrote asked pending speaks (by simp) speaks.given rfl rfl listens id
  | drained session ready =>
      rw [show List.filterMap serializedMessage [] = [] from rfl, List.append_nil]
      exact speaks_kept link _ wrote asked pending speaks (by simp) speaks.given rfl rfl listens id

theorem forwarder_speaks (link : Link) (next : Forwarder) (connected : next ≠ .connecting)
    (wrote : List Message) (asked pending : List ManagerCommand)
    (speaks : Speaks link wrote asked pending) :
    Speaks { link with forwarder := next } wrote asked pending := by
  refine speaks_kept link _ wrote asked pending speaks (fun same => (connected same).elim)
    speaks.given rfl rfl ?_ id
  intro listens
  rw [listening_iff] at listens ⊢
  exact Or.inr (listens.resolve_left connected)

theorem sent_speaks (link : Link) (commands : Channel ManagerCommand 100)
    (command : ManagerCommand) (put : commands.queue = link.commands.queue ++ [command])
    (listens : link.listening = true) (wrote : List Message) (asked pending : List ManagerCommand)
    (speaks : Speaks link wrote asked (command :: pending)) :
    Speaks { link with commands := commands } wrote asked pending := by
  obtain ⟨fresh, given, taken, lost, said, issued, kept, silent⟩ := speaks
  obtain rfl := kept listens
  refine ⟨fresh, given, taken, [], said, ?_, fun _ => rfl, silent⟩
  rw [issued, put]
  simp

theorem refused_speaks (link : Link) (command : ManagerCommand) (deaf : link.listening = false)
    (wrote : List Message) (asked pending : List ManagerCommand)
    (speaks : Speaks link wrote asked (command :: pending)) :
    Speaks link wrote asked pending := by
  obtain ⟨fresh, given, taken, lost, said, issued, kept, silent⟩ := speaks
  refine ⟨fresh, given, taken, lost ++ [command], said, ?_, fun listens => ?_, silent⟩
  · rw [issued]
    simp
  · rw [deaf] at listens
    cases listens

theorem issued_speaks (link : Link) (wrote : List Message) (asked issued : List ManagerCommand)
    (speaks : Speaks link wrote asked []) : Speaks link wrote (asked ++ issued) issued := by
  obtain ⟨fresh, given, taken, lost, said, balance, kept, silent⟩ := speaks
  refine ⟨fresh, given, taken, lost, said, ?_, kept, silent⟩
  rw [balance]
  simp

end Links

section Runs

def serializedBy (sender : Sender) (log : List Note) : List Message :=
  log.filterMap fun
    | .task origin (.serialized message) => if origin = sender then some message else none
    | _ => none

def enqueuedIn (log : List Note) : List Delivery :=
  log.filterMap fun
    | .enqueued delivery => some delivery
    | _ => none

def handledIn (log : List Note) : List Delivery :=
  log.filterMap fun
    | .handled delivery => some delivery
    | _ => none

def pendingIn : Loop → List (Sender × ManagerCommand)
  | .sending commands => commands
  | .stopped | .waiting => []

def eventOf : Call → Option (PeerEvent × PeerIp)
  | .event event peerIp _ => some (event, peerIp)
  | .addPeer _ _ | .removePeer _ | .setDiskIo => none

def tagOf (delivery : Delivery) : PeerEvent × PeerIp := (delivery.event, delivery.peerIp)

def issuedTo (sender : Sender) (actions : List Action) : List ManagerCommand :=
  commandsFor sender (actions.filterMap commandOf)

structure Relayed (acts : List Act) (swarm : Swarm) (log : List Note) (calls : List Call)
    (actions : List Action) : Prop where
  taken : calls.filterMap eventOf = (handledIn log).map tagOf
  called : ∀ call ∈ calls, (eventOf call).isSome = true ∨
    ∃ peerIp sender, call = .addPeer peerIp sender ∧ .register peerIp ∈ acts ∧
      swarm.addresses[sender]? = some peerIp
  tagged : ∀ delivery ∈ enqueuedIn log,
    swarm.addresses[delivery.origin]? = some delivery.peerIp
  queued : enqueuedIn log = handledIn log ++ swarm.inbox.queue
  speaks : ∀ (sender : Sender) (link : Link), swarm.peerManager.links[sender]? = some link →
    Speaks link (serializedBy sender log) (issuedTo sender actions)
      (commandsFor sender (pendingIn swarm.loop))
  unborn : ∀ sender : Sender, swarm.peerManager.links[sender]? = none →
    serializedBy sender log = [] ∧ issuedTo sender actions = [] ∧
      commandsFor sender (pendingIn swarm.loop) = []

theorem serialized_by_append (sender : Sender) (first second : List Note) :
    serializedBy sender (first ++ second) =
      serializedBy sender first ++ serializedBy sender second :=
  List.filterMap_append

theorem enqueued_in_append (first second : List Note) :
    enqueuedIn (first ++ second) = enqueuedIn first ++ enqueuedIn second := List.filterMap_append

theorem handled_in_append (first second : List Note) :
    handledIn (first ++ second) = handledIn first ++ handledIn second := List.filterMap_append

theorem issued_to_append (sender : Sender) (first second : List Action) :
    issuedTo sender (first ++ second) = issuedTo sender first ++ issuedTo sender second := by
  simp only [issuedTo, List.filterMap_append, commands_for_append]

theorem serialized_by_task (sender origin : Sender) (notes : List TaskNote) :
    serializedBy sender (notes.map (.task origin)) =
      if origin = sender then notes.filterMap serializedMessage else [] := by
  unfold serializedBy
  rw [List.filterMap_map]
  split
  · rename_i same
    refine List.filterMap_congr fun note _ => ?_
    cases note <;> simp [serializedMessage, same]
  · rename_i different
    refine List.filterMap_eq_nil_iff.mpr fun note _ => ?_
    cases note <;> simp [different]

theorem task_notes_quiet (origin : Sender) (notes : List TaskNote) :
    enqueuedIn (notes.map (.task origin)) = [] ∧ handledIn (notes.map (.task origin)) = [] := by
  constructor <;> simp only [enqueuedIn, handledIn, List.filterMap_map] <;>
    exact List.filterMap_eq_nil_iff.mpr fun _ _ => rfl

theorem relayed_new (manager : DownloadManager) : Relayed [] (Swarm.new manager) [] [] [] := by
  refine ⟨rfl, ?_, ?_, rfl, ?_, fun _ _ => ⟨rfl, rfl, rfl⟩⟩
  · exact fun call member => (List.not_mem_nil member).elim
  · exact fun delivery member => (List.not_mem_nil member).elim
  · intro sender link there
    simp [Swarm.new, PeerManager.new] at there

variable (acts : List Act)

theorem relayed_added (before : Swarm) (log : List Note) (calls : List Call)
    (actions : List Action) (relayed : Relayed acts before log calls actions) (peerIp : PeerIp)
    (bitfield : Option Bytes)
    (kept : ∀ (sender : Sender) (known : PeerIp), before.addresses[sender]? = some known →
      ({ before with peerManager := before.peerManager.addPeer peerIp bitfield }
        : Swarm).addresses[sender]? = some known) :
    Relayed acts { before with peerManager := before.peerManager.addPeer peerIp bitfield } log calls
      actions := by
  obtain ⟨taken, called, tagged, queued, speaks, unborn⟩ := relayed
  refine ⟨taken, fun call member => ?_, fun delivery member => kept _ _ (tagged delivery member),
    queued, fun sender link there => ?_, fun sender absent => ?_⟩
  · rcases called call member with event | ⟨known, sender, same, asked, here⟩
    · exact Or.inl event
    · exact Or.inr ⟨known, sender, same, asked, kept sender known here⟩
  · rcases get_added before.peerManager peerIp bitfield sender with same | ⟨absent, new⟩
    · exact speaks sender link (same.symm.trans there)
    · obtain rfl := Option.some.inj (new.symm.trans there)
      obtain ⟨wrote, issued, pending⟩ := unborn sender absent
      rw [wrote, issued, pending]
      exact speaks_new peerIp bitfield
  · rcases get_added before.peerManager peerIp bitfield sender with same | ⟨-, new⟩
    · exact unborn sender (same.symm.trans absent)
    · cases new.symm.trans absent

theorem relayed_link (before : Swarm) (log : List Note) (calls : List Call)
    (actions : List Action) (relayed : Relayed acts before log calls actions) (sender : Sender)
    (link changed : Link) (notes : List TaskNote)
    (there : before.peerManager.links[sender]? = some link)
    (same : changed.peerIp = link.peerIp)
    (speaks : ∀ wrote asked pending, Speaks link wrote asked pending →
      Speaks changed (wrote ++ notes.filterMap serializedMessage) asked pending) :
    Relayed acts (before.setLink sender changed) (log ++ notes.map (.task sender)) calls
      actions := by
  obtain ⟨taken, called, tagged, queued, speaking, unborn⟩ := relayed
  obtain ⟨no_entry, no_handling⟩ := task_notes_quiet sender notes
  have addresses := set_link_addresses before sender link changed there same
  refine ⟨?_, ?_, ?_, ?_, fun other after found => ?_, fun other absent => ?_⟩
  · rw [handled_in_append, no_handling, List.append_nil]
    exact taken
  · rw [addresses]
    exact called
  · rw [enqueued_in_append, no_entry, List.append_nil, addresses]
    exact tagged
  · rw [enqueued_in_append, handled_in_append, no_entry, no_handling, List.append_nil,
      List.append_nil]
    exact queued
  · rw [get_set_link before sender other link changed there] at found
    rw [serialized_by_append, serialized_by_task]
    by_cases mine : sender = other
    · subst mine
      rw [if_pos rfl] at found ⊢
      obtain rfl := Option.some.inj found
      exact speaks _ _ _ (speaking sender link there)
    · rw [if_neg mine] at found ⊢
      rw [List.append_nil]
      exact speaking other after found
  · rw [get_set_link before sender other link changed there] at absent
    by_cases mine : sender = other
    · rw [if_pos mine] at absent
      cases absent
    · rw [if_neg mine] at absent
      rw [serialized_by_append, serialized_by_task, if_neg mine, List.append_nil]
      exact unborn other absent

theorem relayed_forwarded (before : Swarm) (log : List Note) (calls : List Call)
    (actions : List Action) (relayed : Relayed acts before log calls actions) (sender : Sender)
    (link : Link) (event : PeerEvent) (inbox : Channel Delivery 1000)
    (there : before.peerManager.links[sender]? = some link)
    (put : inbox.queue = before.inbox.queue ++ [⟨event, link.peerIp, sender⟩]) :
    Relayed acts { before.setLink sender { link with forwarder := .receiving } with inbox := inbox }
      (log ++ [.enqueued ⟨event, link.peerIp, sender⟩]) calls actions := by
  have moved := relayed_link acts before log calls actions relayed sender link
    { link with forwarder := .receiving } [] there rfl fun wrote asked pending speaks => by
      rw [List.filterMap_nil, List.append_nil]
      exact forwarder_speaks link .receiving nofun wrote asked pending speaks
  rw [List.map_nil, List.append_nil] at moved
  obtain ⟨taken, called, tagged, queued, speaks, unborn⟩ := moved
  have silent : ∀ other, serializedBy other (log ++ [.enqueued ⟨event, link.peerIp, sender⟩]) =
      serializedBy other log := by
    intro other
    rw [serialized_by_append]
    exact List.append_nil _
  have untaken : handledIn (log ++ [.enqueued ⟨event, link.peerIp, sender⟩]) = handledIn log := by
    rw [handled_in_append]
    exact List.append_nil _
  refine ⟨?_, called, ?_, ?_, ?_, ?_⟩
  · rw [untaken]
    exact taken
  · intro delivery member
    rw [enqueued_in_append] at member
    rcases List.mem_append.mp member with old | new
    · exact tagged delivery old
    · obtain rfl := List.mem_singleton.mp new
      have here : before.addresses[sender]? = some link.peerIp := by
        rw [Swarm.addresses, List.getElem?_map, there, Option.map_some]
      rw [← set_link_addresses before sender link { link with forwarder := .receiving } there
        rfl] at here
      exact here
  · rw [enqueued_in_append, untaken, queued, put, List.append_assoc]
    rfl
  · intro other after found
    rw [silent]
    exact speaks other after found
  · intro other absent
    rw [silent]
    exact unborn other absent

theorem issued_born (sha1 : Bytes → Hash) (swarm : Swarm) (registered : Registered swarm)
    (choice : Choice) (event : PeerEvent) (peerIp : PeerIp) (sender : Sender)
    (absent : swarm.peerManager.links[sender]? = none) :
    commandsFor sender
      ((handleEvent sha1 choice swarm.manager event peerIp).2.filterMap commandOf) = [] := by
  refine List.eq_nil_iff_forall_not_mem.mpr fun command member => ?_
  obtain ⟨known, record, found⟩ := answers_known choice swarm.manager event peerIp _
    (event_answers sha1 choice swarm.manager event peerIp) sender command
    ((mem_commands_for sender _ command).mp member)
  have here := registered known sender record found
  rw [Swarm.addresses, List.getElem?_map, absent] at here
  cases here

theorem relayed_handled (sha1 : Bytes → Hash) (before : Swarm) (log : List Note)
    (calls : List Call) (actions : List Action) (relayed : Relayed acts before log calls actions)
    (registered : Registered before) (choice : Choice) (delivery : Delivery)
    (rest : Channel Delivery 1000) (ready : before.loop = .waiting)
    (took : before.inbox.queue = delivery :: rest.queue) :
    Relayed acts
      { before with
        inbox := rest
        manager := (handleEvent sha1 choice before.manager delivery.event delivery.peerIp).1
        loop := .sending ((handleEvent sha1 choice before.manager delivery.event
          delivery.peerIp).2.filterMap commandOf) }
      (log ++ [.handled delivery])
      (calls ++ [.event delivery.event delivery.peerIp choice])
      (actions ++ (handleEvent sha1 choice before.manager delivery.event delivery.peerIp).2) := by
  obtain ⟨taken, called, tagged, queued, speaks, unborn⟩ := relayed
  have idle : pendingIn before.loop = [] := by rw [ready, pendingIn]
  have silent : ∀ other,
      serializedBy other (log ++ [.handled delivery]) = serializedBy other log := by
    intro other
    rw [serialized_by_append]
    exact List.append_nil _
  have unput : enqueuedIn (log ++ [.handled delivery]) = enqueuedIn log := by
    rw [enqueued_in_append]
    exact List.append_nil _
  refine ⟨?_, ?_, ?_, ?_, ?_, ?_⟩
  · rw [List.filterMap_append, handled_in_append, List.map_append, taken]
    rfl
  · intro call member
    rcases List.mem_append.mp member with old | new
    · exact called call old
    · rw [List.mem_singleton.mp new]
      exact Or.inl rfl
  · rw [unput]
    exact tagged
  · rw [unput, handled_in_append, queued, took, List.append_assoc]
    rfl
  · intro sender link there
    have spoke := speaks sender link there
    rw [idle] at spoke
    rw [silent, issued_to_append]
    exact issued_speaks link _ _ _ spoke
  · intro sender absent
    obtain ⟨wrote, issued, -⟩ := unborn sender absent
    have nothing := issued_born sha1 before registered choice delivery.event delivery.peerIp sender
      absent
    rw [silent, issued_to_append, issued]
    exact ⟨wrote, nothing, nothing⟩

/-- The loop gets rid of a command: the channel takes it, or nobody listens any more. -/
theorem relayed_sent (before : Swarm) (log : List Note) (calls : List Call)
    (actions : List Action) (relayed : Relayed acts before log calls actions) (sender : Sender)
    (command : ManagerCommand) (rest : List (Sender × ManagerCommand)) (link changed : Link)
    (busy : before.loop = .sending ((sender, command) :: rest))
    (there : before.peerManager.links[sender]? = some link) (same : changed.peerIp = link.peerIp)
    (speaks : ∀ wrote asked pending, Speaks link wrote asked (command :: pending) →
      Speaks changed wrote asked pending) :
    Relayed acts { before.setLink sender changed with loop := .sending rest } log calls
      actions := by
  obtain ⟨taken, called, tagged, queued, speaking, unborn⟩ := relayed
  have addresses := set_link_addresses before sender link changed there same
  have pending : ∀ other, commandsFor other (pendingIn before.loop) =
      if sender = other then command :: commandsFor other rest else commandsFor other rest := by
    intro other
    rw [busy, pendingIn, commands_for_cons]
  refine ⟨taken, ?_, ?_, queued, fun other after found => ?_, fun other absent => ?_⟩
  · intro call member
    rw [show Swarm.addresses { before.setLink sender changed with loop := .sending rest } =
      before.addresses from addresses]
    exact called call member
  · intro delivery member
    rw [show Swarm.addresses { before.setLink sender changed with loop := .sending rest } =
      before.addresses from addresses]
    exact tagged delivery member
  · have found := (get_set_link before sender other link changed there).symm.trans found
    by_cases mine : sender = other
    · subst mine
      rw [if_pos rfl] at found
      obtain rfl := Option.some.inj found
      have spoke := speaking sender link there
      rw [pending, if_pos rfl] at spoke
      exact speaks _ _ _ spoke
    · rw [if_neg mine] at found
      have spoke := speaking other after found
      rw [pending, if_neg mine] at spoke
      exact spoke
  · have absent := (get_set_link before sender other link changed there).symm.trans absent
    by_cases mine : sender = other
    · rw [if_pos mine] at absent
      cases absent
    · rw [if_neg mine] at absent
      obtain ⟨wrote, issued, nothing⟩ := unborn other absent
      rw [pending, if_neg mine] at nothing
      exact ⟨wrote, issued, nothing⟩

theorem relayed_registered (before : Swarm) (log : List Note) (calls : List Call)
    (actions : List Action) (relayed : Relayed acts before log calls actions) (peerIp : PeerIp)
    (sender : Sender) (here : before.addresses[sender]? = some peerIp) :
    Relayed (acts ++ [.register peerIp])
      { before with manager := addPeer before.manager peerIp sender } log
      (calls ++ [.addPeer peerIp sender]) actions := by
  obtain ⟨taken, called, tagged, queued, speaks, unborn⟩ := relayed
  refine ⟨?_, ?_, tagged, queued, speaks, unborn⟩
  · rw [List.filterMap_append, taken]
    exact List.append_nil _
  · intro call member
    rcases List.mem_append.mp member with old | new
    · rcases called call old with event | ⟨known, other, same, asked, found⟩
      · exact Or.inl event
      · exact Or.inr ⟨known, other, same, List.mem_append_left _ asked, found⟩
    · exact Or.inr ⟨peerIp, sender, List.mem_singleton.mp new,
        List.mem_append_right acts List.mem_cons_self, here⟩

theorem relayed_loop (before : Swarm) (log : List Note) (calls : List Call)
    (actions : List Action) (relayed : Relayed acts before log calls actions) (loop : Loop)
    (idle : pendingIn before.loop = []) (still : pendingIn loop = []) :
    Relayed acts { before with loop := loop } log calls actions := by
  obtain ⟨taken, called, tagged, queued, speaks, unborn⟩ := relayed
  rw [idle] at speaks unborn
  refine ⟨taken, called, tagged, queued, fun sender link there => ?_, fun sender absent => ?_⟩
  · rw [still]
    exact speaks sender link there
  · rw [still]
    exact unborn sender absent

theorem relayed_more (more : List Act) (swarm : Swarm) (log : List Note) (calls : List Call)
    (actions : List Action) (relayed : Relayed acts swarm log calls actions) :
    Relayed (acts ++ more) swarm log calls actions := by
  obtain ⟨taken, called, tagged, queued, speaks, unborn⟩ := relayed
  refine ⟨taken, fun call member => ?_, tagged, queued, speaks, unborn⟩
  rcases called call member with event | ⟨known, sender, same, asked, found⟩
  · exact Or.inl event
  · exact Or.inr ⟨known, sender, same, List.mem_append_left more asked, found⟩

theorem set_link_self (swarm : Swarm) (sender : Sender) (link : Link)
    (there : swarm.peerManager.links[sender]? = some link) : swarm.setLink sender link = swarm := by
  obtain ⟨inside, rfl⟩ := List.getElem?_eq_some_iff.mp there
  simp only [Swarm.setLink, List.set_getElem_self]

/-- One step of the program is at most one call on the manager. -/
theorem relayed_step (sha1 : Bytes → Hash) (before after : Swarm) (act : Act)
    (notes log : List Note) (calls : List Call) (actions : List Action)
    (relayed : Relayed acts before log calls actions)
    (tabled : Tabled before.peerManager.peerSenders before.addresses)
    (registered : Registered before) (stepped : Stepped sha1 before act after notes) :
    ∃ more later, run (downloads sha1) before.manager more = some (after.manager, later) ∧
      Relayed (acts ++ [act]) after (log ++ notes) (calls ++ more) (actions ++ later) := by
  have kept := addresses_kept sha1 before after act notes stepped
  have same : ∀ manager : DownloadManager, run (downloads sha1) manager [] = some (manager, []) :=
    fun _ => rfl
  cases stepped with
  | registered peerIp sender idle live known =>
      refine ⟨[.addPeer peerIp sender], [], run_one (downloads sha1) _ _ _ _ rfl, ?_⟩
      rw [List.append_nil, List.append_nil]
      exact relayed_registered acts before log calls actions relayed peerIp sender
        (tabled.latest peerIp sender known).1
  | handled choice delivery rest ready taken =>
      refine ⟨[.event delivery.event delivery.peerIp choice], _,
        run_one (downloads sha1) _ _ _ _ rfl, relayed_more acts _ _ _ _ _ ?_⟩
      exact relayed_handled acts sha1 before log calls actions relayed registered choice delivery
        rest ready taken
  | added peerIp bitfield =>
      refine ⟨[], [], same _, relayed_more acts _ _ _ _ _ ?_⟩
      simp only [List.append_nil]
      exact relayed_added acts before log calls actions relayed peerIp bitfield kept
  | tasked sender act link changed said there tasked =>
      refine ⟨[], [], same _, relayed_more acts _ _ _ _ _ ?_⟩
      simp only [List.append_nil]
      exact relayed_link acts before log calls actions relayed sender link changed said there
        (tasked_peer_ip link changed act said tasked)
        (tasked_speaks link changed act said tasked)
  | forwarded sender link event inbox there holding live put =>
      refine ⟨[], [], same _, relayed_more acts _ _ _ _ _ ?_⟩
      simp only [List.append_nil]
      exact relayed_forwarded acts before log calls actions relayed sender link event inbox there
        put
  | abandoned sender link event there holding shut =>
      refine ⟨[], [], same _, relayed_more acts _ _ _ _ _ ?_⟩
      have moved := relayed_link acts before log calls actions relayed sender link
        { link with forwarder := .finished } [] there rfl fun wrote asked pending speaks => by
          rw [List.filterMap_nil, List.append_nil]
          exact forwarder_speaks link .finished nofun wrote asked pending speaks
      simpa only [List.append_nil, List.map_nil] using moved
  | sent sender command rest link commands busy there listens put =>
      refine ⟨[], [], same _, relayed_more acts _ _ _ _ _ ?_⟩
      simp only [List.append_nil]
      exact relayed_sent acts before log calls actions relayed sender command rest link _ busy there
        rfl (sent_speaks link commands command put listens)
  | refused sender command rest link busy there deaf =>
      refine ⟨[], [], same _, relayed_more acts _ _ _ _ _ ?_⟩
      have moved := relayed_sent acts before log calls actions relayed sender command rest link link
        busy there rfl (refused_speaks link command deaf)
      rw [set_link_self before sender link there] at moved
      simpa only [List.append_nil] using moved
  | started idle =>
      refine ⟨[], [], same _, relayed_more acts _ _ _ _ _ ?_⟩
      simp only [List.append_nil]
      exact relayed_loop acts before log calls actions relayed .waiting
        (by rw [idle, pendingIn]) rfl
  | closed =>
      refine ⟨[], [], same _, relayed_more acts _ _ _ _ _ ?_⟩
      simp only [List.append_nil]
      obtain ⟨taken, called, tagged, queued, speaks, unborn⟩ := relayed
      exact ⟨taken, called, tagged, queued, speaks, unborn⟩
  | checked done =>
      refine ⟨[], [], same _, relayed_more acts _ _ _ _ _ ?_⟩
      simp only [List.append_nil]
      refine relayed_loop acts before log calls actions relayed _ (by rw [done, pendingIn]) ?_
      split <;> rfl

theorem run_relayed (sha1 : Bytes → Hash) (manager : DownloadManager)
    (unregistered : manager.peers = ∅) (finish : Swarm) (log : List Note)
    (ran : run (program sha1) (Swarm.new manager) acts = some (finish, log)) :
    ∃ calls actions, run (downloads sha1) manager calls = some (finish.manager, actions) ∧
      Relayed acts finish log calls actions := by
  refine run_simulates (program sha1) (downloads sha1) Swarm.manager Relayed (Swarm.new manager)
    acts (relayed_new manager) ?_ finish log ran
  intro past act before log after notes calls actions _ reached relayed moved
  exact relayed_step past sha1 before after act notes log calls actions relayed
    (run_tabled sha1 manager past before log reached)
    (Program.run_registered sha1 manager unregistered past before log reached)
    (step_stepped sha1 before after act notes moved)

end Runs

section Whole

variable (sha1 : Bytes → Hash) (manager : DownloadManager)

def eventsOf (sender : Sender) (deliveries : List Delivery) : List PeerEvent :=
  deliveries.filterMap fun delivery =>
    if delivery.origin = sender then some delivery.event else none

theorem enqueued_events (sender : Sender) (log : List Note) :
    eventsOf sender (enqueuedIn log) = enqueuedBy sender log := by
  unfold eventsOf enqueuedIn enqueuedBy
  rw [List.filterMap_filterMap]
  refine List.filterMap_congr fun note _ => ?_
  cases note <;> rfl

theorem enqueued_first (acts : List Act) (finish : Swarm) (log : List Note)
    (ran : run (program sha1) (Swarm.new manager) acts = some (finish, log)) (sender : Sender) :
    enqueuedBy sender log <+: raisedBy sender log := by
  refine run_history (program sha1) (Swarm.new manager) acts
    (fun _ _ log => enqueuedBy sender log <+: raisedBy sender log) (List.prefix_refl _) ?_ acts
    (List.prefix_refl acts) finish log ran
  intro past act before said after notes _ reached began moved
  by_cases live : after.receiverOpen = true
  · have whole := (run_snoc_iff (program sha1) (Swarm.new manager) after past act _).mpr
      ⟨before, said, notes, reached, moved, rfl⟩
    rw [(run_flows sha1 manager _ after _ whole live).relayed sender]
    exact List.prefix_append _ _
  · have quiet : enqueuedBy sender (said ++ notes) = enqueuedBy sender said := by
      rw [enqueued_by_append]
      cases step_stepped sha1 before after act notes moved with
      | forwarded origin link event inbox there holding open_still => exact (live open_still).elim
      | tasked origin act link changed turn => rw [enqueued_by_task, List.append_nil]
      | added | registered | started | closed | abandoned | handled | sent | refused | checked =>
          exact List.append_nil _
    rw [quiet, raised_by_append]
    exact began.trans (List.prefix_append _ _)

structure Carries (swarm : Swarm) (log : List Note) (actions : List Action) (sender : Sender)
    (link : Link) : Prop where
  arrived : eventsOf sender (handledIn log ++ swarm.inbox.queue) <+: raisedBy sender log
  conserved : swarm.receiverOpen = true → raisedBy sender log =
    eventsOf sender (handledIn log ++ swarm.inbox.queue) ++ link.afloat
  spoken : ∃ taken lost, serializedBy sender log = greeted link ++ taken.filterMap commandMessage ∧
    issuedTo sender actions = taken ++ (link.commands.queue ++
      (lost ++ commandsFor sender (pendingIn swarm.loop))) ∧
    (link.listening = true → lost = [])

def interestShown : List Act :=
  [.addPeer default (some [0]), .register default, .start, .task 0 .connected, .task 0 .greet,
    .task 0 (.read (.bitfield [128])), .task 0 .emit, .task 0 .receive, .forward 0,
    .handle default, .send, .task 0 .take]

end Whole

end MotteSeed.Relay
