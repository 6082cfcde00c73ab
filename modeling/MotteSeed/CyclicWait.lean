import MotteSeed.PeerTracking
import Mathlib.Algebra.Order.BigOperators.Group.List

/-! Whether the loop, a connection and its forwarder can wait for each other in a circle.
The circle needs a full channel at each of its three places, so it takes as many events
as fit between the peer and the loop, and one hundred and one handled ones that filled
the channel of commands. With fewer it cannot close, and with that many it can. -/
namespace MotteSeed.CyclicWait
open Toolkit Toolkit.HashTable Toolkit.Runs Toolkit.Channels PeerWire PeerConnection TorrentMeta
  PieceStore PieceShape DownloadSafety Downloads Availability PeerTasks Program PeerTracking

/-- The connection runs and waits for room for an event, its forwarder holds one, and nobody
takes its commands. -/
structure Stuck (link : Link) : Prop where
  crowded : link.commands.Full
  talks : ∃ session first more, link.session = some session ∧ session.outcome = none ∧
    session.unsent = first :: more
  packed : link.events.Full
  holding : ∃ event, link.forwarder = .forwarding event

/-- The loop waits for room for a command to the connection, the connection for room for an
event, and its forwarder for room on the download channel. -/
def WaitsInCircle (swarm : Swarm) : Prop :=
  ∃ sender command rest link, swarm.loop = .sending ((sender, command) :: rest) ∧
    swarm.peerManager.links[sender]? = some link ∧ Stuck link ∧ swarm.inbox.Full

def raises : Act → Nat
  | .task _ (.read message) => (handleMessage (PeerState.new none) message).2.length
  | _ => 0

def eventCount (acts : List Act) : Nat := (acts.map raises).sum

section Counting

def handledIn (log : List Note) : Nat :=
  log.countP fun
    | .handled _ => true
    | .task _ _ | .enqueued _ => false

theorem handled_in_append (first second : List Note) :
    handledIn (first ++ second) = handledIn first + handledIn second := List.countP_append

def afloatCount (swarm : Swarm) : Nat :=
  (swarm.peerManager.links.map fun link => link.afloat.length).sum

theorem sum_set {α : Type} (weight : α → Nat) (items : List α) (place : Nat) (old new : α)
    (there : items[place]? = some old) :
    ((items.set place new).map weight).sum + weight old =
      (items.map weight).sum + weight new := by
  induction items generalizing place with
  | nil => cases there
  | cons first rest ih =>
      cases place with
      | zero =>
          obtain rfl := Option.some.inj there
          simp only [List.set_cons_zero, List.map_cons, List.sum_cons]
          omega
      | succ place =>
          have tail := ih place there
          simp only [List.set_cons_succ, List.map_cons, List.sum_cons]
          omega

theorem afloat_count_set (swarm : Swarm) (sender : Sender) (link after : Link)
    (there : swarm.peerManager.links[sender]? = some link) :
    afloatCount (swarm.setLink sender after) + link.afloat.length =
      afloatCount swarm + after.afloat.length :=
  sum_set (fun link : Link => link.afloat.length) swarm.peerManager.links sender link after there

theorem message_event_count (state : PeerState) (message : Message) :
    (handleMessage state message).2.length =
      (handleMessage (PeerState.new none) message).2.length := by
  cases message <;> rfl

theorem tasked_raises (link after : Link) (sender : Sender) (act : TaskAct)
    (notes : List TaskNote) (tasked : Tasked link act after notes) :
    (notes.filterMap raisedEvent).length ≤ raises (.task sender act) := by
  cases tasked with
  | read session message =>
      have kept := List.length_filterMap_le raisedEvent
        ((handleMessage session.state message).2.map TaskNote.raised)
      rwa [List.length_map, message_event_count] at kept
  | take session command rest =>
      rw [List.filterMap_map]
      exact Nat.le_of_eq (congrArg List.length (List.filterMap_eq_nil_iff.mpr fun _ _ => rfl))
  | connected | refused | greet | emit | ended | receive | drained => exact Nat.zero_le _

theorem handled_in_task (sender : Sender) (notes : List TaskNote) :
    handledIn (notes.map (.task sender)) = 0 := by
  unfold handledIn
  rw [List.countP_map]
  exact List.countP_eq_zero.mpr fun note _ => Bool.false_ne_true

theorem afloat_count_added (swarm : Swarm) (peerIp : PeerIp) (bitfield : Option Bytes) :
    afloatCount { swarm with peerManager := swarm.peerManager.addPeer peerIp bitfield } =
      afloatCount swarm := by
  simp [afloatCount, PeerManager.addPeer, Link.new, Link.afloat, Link.unsent, Forwarder.holding]

theorem afloat_count_tasked (swarm : Swarm) (sender : Sender) (link after : Link) (act : TaskAct)
    (notes : List TaskNote) (there : swarm.peerManager.links[sender]? = some link)
    (tasked : Tasked link act after notes) (orderly : Orderly link) :
    afloatCount (swarm.setLink sender after) ≤ afloatCount swarm + raises (.task sender act) := by
  have carried := tasked_afloat link after act notes tasked orderly
  have raised := tasked_raises link after sender act notes tasked
  have moved := afloat_count_set swarm sender link after there
  rw [carried, List.length_append] at moved
  omega

theorem afloat_count_forwarded (swarm : Swarm) (sender : Sender) (link : Link)
    (event : PeerEvent) (there : swarm.peerManager.links[sender]? = some link)
    (holding : link.forwarder = .forwarding event) :
    afloatCount (swarm.setLink sender { link with forwarder := .receiving }) + 1 =
      afloatCount swarm := by
  have moved := afloat_count_set swarm sender link { link with forwarder := .receiving } there
  have fewer : link.afloat.length =
      (Link.afloat { link with forwarder := .receiving }).length + 1 := by
    simp [Link.afloat, Link.unsent, holding, Forwarder.holding]
  omega

theorem afloat_count_sent (swarm : Swarm) (sender : Sender) (link : Link)
    (commands : Channel ManagerCommand 100)
    (there : swarm.peerManager.links[sender]? = some link) :
    afloatCount (swarm.setLink sender { link with commands := commands }) = afloatCount swarm := by
  have moved := afloat_count_set swarm sender link { link with commands := commands } there
  have same : Link.afloat { link with commands := commands } = link.afloat := rfl
  rw [same] at moved
  exact Nat.add_right_cancel moved

theorem balance_step (sha1 : Bytes → Hash) (before after : Swarm) (act : Act)
    (notes log : List Note) (total : Nat) (live : before.receiverOpen = true)
    (orderly : ∀ link ∈ before.peerManager.links, Orderly link)
    (stepped : Stepped sha1 before act after notes)
    (balanced : handledIn log + before.inbox.queue.length + afloatCount before ≤ total) :
    handledIn (log ++ notes) + after.inbox.queue.length + afloatCount after ≤
      total + raises act := by
  rw [handled_in_append]
  cases stepped with
  | added peerIp bitfield =>
      rw [afloat_count_added before peerIp bitfield]
      exact Nat.le_add_right_of_le balanced
  | tasked sender act link changed said there tasked =>
      have grown := afloat_count_tasked before sender link changed act said there tasked
        (orderly link (List.mem_of_getElem? there))
      rw [handled_in_task]
      change handledIn log + 0 + before.inbox.queue.length + _ ≤ _
      omega
  | forwarded sender link event inbox there holding _ put =>
      have fewer := afloat_count_forwarded before sender link event there holding
      have longer : inbox.queue.length = before.inbox.queue.length + 1 := by
        rw [put, List.length_append, List.length_singleton]
      change handledIn log + 0 + inbox.queue.length +
        afloatCount (before.setLink sender { link with forwarder := .receiving }) ≤ total + 0
      omega
  | abandoned sender link event there holding shut =>
      rw [live] at shut
      cases shut
  | handled choice delivery rest ready taken =>
      rw [taken, List.length_cons] at balanced
      change handledIn log + 1 + rest.queue.length + afloatCount before ≤ total + 0
      omega
  | sent sender command rest link commands busy there =>
      change handledIn log + 0 + before.inbox.queue.length +
        afloatCount (before.setLink sender { link with commands := commands }) ≤ total + 0
      rw [afloat_count_sent before sender link commands there]
      exact balanced
  | registered | started | closed | refused | checked => exact Nat.le_add_right_of_le balanced

theorem event_count_snoc (past : List Act) (act : Act) :
    eventCount (past ++ [act]) = eventCount past + raises act := by
  simp [eventCount]

theorem run_balance (sha1 : Bytes → Hash) (manager : DownloadManager) (acts : List Act)
    (finish : Swarm) (log : List Note)
    (ran : run (program sha1) (Swarm.new manager) acts = some (finish, log))
    (live : finish.receiverOpen = true) :
    handledIn log + finish.inbox.queue.length + afloatCount finish ≤ eventCount acts := by
  refine run_history (program sha1) (Swarm.new manager) acts
    (fun past swarm log => swarm.receiverOpen = true →
      handledIn log + swarm.inbox.queue.length + afloatCount swarm ≤ eventCount past)
    (fun _ => Nat.zero_le _) ?_ acts (List.prefix_refl acts) finish log ran live
  intro past act before said after notes _ reached balanced moved live
  have stepped := step_stepped sha1 before after act notes moved
  have was_live := receiver_stays_shut sha1 before after act notes stepped live
  have flows := run_flows sha1 manager past before said reached was_live
  rw [event_count_snoc]
  exact balance_step sha1 before after act notes said (eventCount past) was_live flows.orderly
    stepped (balanced was_live)

end Counting

section Commands

variable (sha1 : Bytes → Hash)

/-- What the loop sends for one event: nothing, one command to one peer, or the news of a
piece to all of them; and something only if there are pieces. -/
inductive Issued (choice : Choice) (manager : DownloadManager) :
    List (Sender × ManagerCommand) → Prop where
  | nothing : Issued choice manager []
  | one (sender : Sender) (command : ManagerCommand) (key : UInt32) (piece : Piece)
      (found : manager.pieceManager.pieces.lookup key = some piece) :
      Issued choice manager [(sender, command)]
  | everyone (key : UInt32) (piece : Piece)
      (found : manager.pieceManager.pieces.lookup key = some piece) :
      Issued choice manager ((choice.peerOrder.arrange manager.peers.entries).map fun peer =>
        (peer.2.1, .havePiece key))

theorem send_to_peer_issued (choice : Choice) (manager asking : DownloadManager)
    (peerIp : PeerIp) (command : ManagerCommand) (key : UInt32) (piece : Piece)
    (found : manager.pieceManager.pieces.lookup key = some piece) :
    Issued choice manager ((sendToPeer choice asking peerIp command).filterMap commandOf) := by
  unfold sendToPeer
  split
  · rename_i sender _ _
    exact .one sender command key piece found
  · exact .nothing

theorem handle_event_issued (choice : Choice) (manager : DownloadManager) (event : PeerEvent)
    (peerIp : PeerIp) :
    Issued choice manager
      ((handleEvent sha1 choice manager event peerIp).2.filterMap commandOf) := by
  cases event with
  | receivedBitfield bitfield =>
      simp only [handle_event_bitfield, handleBitfield]
      split
      · rename_i needs
        obtain ⟨key, next⟩ := Option.isSome_iff_exists.mp needs
        obtain ⟨piece, found, -⟩ := next_piece_needed _ _ key next
        exact send_to_peer_issued choice manager _ peerIp .interested key piece found
      · exact .nothing
  | peerUnchoked =>
      rw [handle_event_unchoked]
      rcases unchoke_cases choice manager peerIp with
        ⟨idle, -⟩ | ⟨key, piece, offset, block, found, -, -, -, -, -, asked⟩
      · rw [idle]
        exact .nothing
      · rw [asked]
        exact send_to_peer_issued choice manager _ peerIp _ key piece found
  | receivedPiece key begin block =>
      have handled := handle_recieved sha1 choice manager key begin.toNat block
      rw [handle_event_piece]
      generalize handleRecievePiece sha1 choice manager key begin.toNat block = done at handled ⊢
      obtain ⟨after, actions⟩ := done
      cases handled with
      | unknown | kept | failed => exact .nothing
      | wrote piece data found =>
          have told : (broadcastHave choice
              (withBlock sha1 manager key begin.toNat block) key).filterMap commandOf =
              (choice.peerOrder.arrange manager.peers.entries).map fun peer =>
                (peer.2.1, .havePiece key) := by
            rw [broadcastHave, List.filterMap_map, ← List.filterMap_eq_map]
            rfl
          rw [List.filterMap_cons_none rfl, told]
          exact .everyone key piece found
  | receivedHave | peerDisconnected | peerChoked | peerInterested | peerNotInterested
  | requestedBlock | downloadRate => exact .nothing

def commandsTo (sender : Sender) (commands : List (Sender × ManagerCommand)) : Nat :=
  commands.countP fun command => command.1 = sender

theorem issued_once (choice : Choice) (swarm : Swarm) (registered : Registered swarm)
    (commands : List (Sender × ManagerCommand)) (issued : Issued choice swarm.manager commands)
    (sender : Sender) : commandsTo sender commands ≤ 1 := by
  cases issued with
  | nothing => exact Nat.zero_le 1
  | one other command => exact List.countP_le_length
  | everyone key piece =>
      rw [commandsTo, List.countP_map,
        (choice.peerOrder.perm swarm.manager.peers.entries).countP_eq]
      refine count_entries_le_one swarm.manager.peers (fun peer => peer.1 = sender) ?_
      intro first second peer other here there mine yours
      have one := registered first peer.1 peer.2 here
      have two := registered second other.1 other.2 there
      rw [of_decide_eq_true mine] at one
      rw [of_decide_eq_true yours, one] at two
      exact Option.some.inj two

def commandsAt (swarm : Swarm) (sender : Sender) : Nat :=
  match swarm.peerManager.links[sender]? with
  | some link => link.commands.queue.length
  | none => 0

def pendingFor (sender : Sender) : Loop → Nat
  | .sending commands => commandsTo sender commands
  | .stopped | .waiting => 0

theorem tasked_commands (link after : Link) (act : TaskAct) (notes : List TaskNote)
    (tasked : Tasked link act after notes) :
    after.commands.queue.length ≤ link.commands.queue.length := by
  cases tasked with
  | take session command rest there selects taken =>
      rw [taken]
      exact Nat.le_succ _
  | connected | refused | greet | read | emit | ended | receive | drained => exact Nat.le_refl _

theorem commands_set_link (swarm : Swarm) (sender other : Sender) (link after : Link)
    (there : swarm.peerManager.links[sender]? = some link) :
    commandsAt (swarm.setLink sender after) other =
      if sender = other then after.commands.queue.length else commandsAt swarm other := by
  unfold commandsAt
  rw [get_set_link swarm sender other link after there]
  by_cases same : sender = other
  · rw [if_pos same, if_pos same]
  · rw [if_neg same, if_neg same]

theorem commands_set_same (swarm : Swarm) (sender other : Sender) (link after : Link)
    (there : swarm.peerManager.links[sender]? = some link)
    (fewer : after.commands.queue.length ≤ link.commands.queue.length) :
    commandsAt (swarm.setLink sender after) other ≤ commandsAt swarm other := by
  rw [commands_set_link swarm sender other link after there]
  split
  · rename_i same
    subst same
    simpa only [commandsAt, there] using fewer
  · exact Nat.le_refl _

theorem commands_added (swarm : Swarm) (sender : Sender) (peerIp : PeerIp)
    (bitfield : Option Bytes) :
    commandsAt { swarm with peerManager := swarm.peerManager.addPeer peerIp bitfield } sender =
      commandsAt swarm sender := by
  unfold commandsAt
  rcases get_added swarm.peerManager peerIp bitfield sender with same | ⟨absent, new⟩
  · rw [same]
  · rw [absent, new]
    rfl

/-- A command that waits in the loop or on the channel is due to a handled event of its own. -/
theorem commands_step (before after : Swarm) (act : Act) (notes log : List Note)
    (sender : Sender) (registered : Registered before)
    (stepped : Stepped sha1 before act after notes)
    (counted : commandsAt before sender + pendingFor sender before.loop ≤ handledIn log) :
    commandsAt after sender + pendingFor sender after.loop ≤ handledIn (log ++ notes) := by
  rw [handled_in_append]
  cases stepped with
  | added peerIp bitfield =>
      rw [commands_added before sender peerIp bitfield]
      exact Nat.le_add_right_of_le counted
  | tasked origin act link changed said there tasked =>
      have fewer := commands_set_same before origin sender link changed there
        (tasked_commands link changed act said tasked)
      exact Nat.le_add_right_of_le (Nat.le_trans (Nat.add_le_add_right fewer _) counted)
  | forwarded origin link event inbox there =>
      have fewer := commands_set_same before origin sender link
        { link with forwarder := .receiving } there (Nat.le_refl _)
      exact Nat.le_add_right_of_le (Nat.le_trans (Nat.add_le_add_right fewer _) counted)
  | abandoned origin link event there =>
      have fewer := commands_set_same before origin sender link
        { link with forwarder := .finished } there (Nat.le_refl _)
      exact Nat.le_add_right_of_le (Nat.le_trans (Nat.add_le_add_right fewer _) counted)
  | handled choice delivery rest ready taken =>
      have once := issued_once choice before registered _
        (handle_event_issued sha1 choice before.manager delivery.event delivery.peerIp) sender
      exact Nat.add_le_add (Nat.le_of_add_right_le counted) once
  | sent origin command rest link commands busy there listens put =>
      have here := commands_set_link before origin sender link { link with commands := commands }
        there
      change commandsAt (before.setLink origin _) sender + commandsTo sender rest ≤ _
      rw [busy] at counted
      simp only [pendingFor, commandsTo, List.countP_cons] at counted ⊢
      rw [here]
      by_cases same : origin = sender
      · subst same
        simp only [commandsAt, there, decide_true, if_true] at counted
        simp only [if_true, put, List.length_append, List.length_singleton]
        omega
      · rw [if_neg same]
        omega
  | refused origin command rest link busy =>
      rw [busy] at counted
      have fewer : commandsTo sender rest ≤ commandsTo sender ((origin, command) :: rest) :=
        (List.sublist_cons_self _ rest).countP_le
      exact Nat.le_add_right_of_le (Nat.le_trans (Nat.add_le_add_left fewer _) counted)
  | checked done =>
      have nothing : pendingFor sender (if before.manager.pieceManager.isDownloadComplete then
          Loop.stopped else .waiting) = 0 := by
        split <;> rfl
      simp only [nothing]
      exact Nat.le_add_right_of_le (Nat.le_of_add_right_le counted)
  | registered | closed => exact Nat.le_add_right_of_le counted
  | started => exact Nat.le_add_right_of_le (Nat.le_of_add_right_le counted)

theorem run_commands (manager : DownloadManager) (unregistered : manager.peers = ∅)
    (acts : List Act) (finish : Swarm) (log : List Note)
    (ran : run (program sha1) (Swarm.new manager) acts = some (finish, log)) (sender : Sender) :
    commandsAt finish sender + pendingFor sender finish.loop ≤ handledIn log := by
  refine run_history (program sha1) (Swarm.new manager) acts
    (fun _ swarm log => commandsAt swarm sender + pendingFor sender swarm.loop ≤ handledIn log)
    (Nat.zero_le _) ?_ acts (List.prefix_refl acts) finish log ran
  intro past act before said after notes _ reached counted moved
  exact commands_step sha1 before after act notes said sender
    (run_registered sha1 manager unregistered past before said reached)
    (step_stepped sha1 before after act notes moved) counted

theorem no_pieces_left (torrent : Torrent) (blockSize : UInt32) (start : DownloadManager)
    (began : DownloadManager.new torrent blockSize = some start)
    (no_piece : hashCount torrent.info = 0) (disk : Bool) (acts : List Act) (finish : Swarm)
    (log : List Note)
    (ran : run (program sha1) (Swarm.new { start with diskIo := disk }) acts = some (finish, log))
    (key : UInt32) : finish.manager.pieceManager.pieces.lookup key = none := by
  obtain ⟨calls, actions, handled⟩ := program_manager_reaches sha1 _ acts finish log ran
  have kept := run_keys sha1 _ finish.manager calls actions handled key
  cases there : start.pieceManager.pieces.lookup key with
  | none =>
      rw [show (Swarm.new { start with diskIo := disk }).manager.pieceManager.pieces.lookup key =
        none from there] at kept
      exact Option.isNone_iff_eq_none.mp (by simpa using kept)
  | some piece =>
      obtain ⟨i, hash, less, -⟩ := manager_new_from torrent blockSize start.pieceManager
        (new_piece_manager torrent blockSize start began) key piece there
      rw [no_piece] at less
      exact (Nat.not_lt_zero i less).elim

theorem no_pieces_silent (torrent : Torrent) (blockSize : UInt32) (start : DownloadManager)
    (began : DownloadManager.new torrent blockSize = some start)
    (no_piece : hashCount torrent.info = 0) (disk : Bool) (acts : List Act) (finish : Swarm)
    (log : List Note)
    (ran : run (program sha1) (Swarm.new { start with diskIo := disk }) acts = some (finish, log))
    (commands : List (Sender × ManagerCommand)) (busy : finish.loop = .sending commands) :
    commands = [] := by
  refine run_history (program sha1) (Swarm.new { start with diskIo := disk }) acts
    (fun _ swarm _ => ∀ commands, swarm.loop = .sending commands → commands = [])
    nofun ?_ acts (List.prefix_refl acts) finish log ran commands busy
  intro past act before said after notes _ reached silent moved
  cases step_stepped sha1 before after act notes moved with
  | handled choice delivery rest ready taken =>
      rintro _ ⟨⟩
      have nothing := no_pieces_left sha1 torrent blockSize start began no_piece disk past before
        said reached
      have issued := handle_event_issued sha1 choice before.manager delivery.event delivery.peerIp
      generalize (handleEvent sha1 choice before.manager delivery.event
        delivery.peerIp).2.filterMap commandOf = commands at issued ⊢
      cases issued with
      | nothing => rfl
      | one _ _ key piece found | everyone key piece found =>
          rw [nothing key] at found
          cases found
  | sent sender command rest link commands busy | refused sender command rest link busy =>
      cases silent _ busy
  | checked done =>
      intro commands busy
      split at busy <;> cases busy
  | started => nofun
  | added | registered | closed | tasked | forwarded | abandoned => exact silent

end Commands

section Circle

theorem run_live (sha1 : Bytes → Hash) (manager : DownloadManager) (acts : List Act)
    (finish : Swarm) (log : List Note)
    (ran : run (program sha1) (Swarm.new manager) acts = some (finish, log))
    (busy : finish.loop ≠ .stopped) : finish.receiverOpen = true := by
  refine run_state_invariant (program sha1)
    (fun swarm => swarm.loop ≠ .stopped → swarm.receiverOpen = true) ?_ (Swarm.new manager)
    finish acts log (fun _ => rfl) ran busy
  intro before act after notes live moved
  cases step_stepped sha1 before after act notes moved with
  | started idle open_still => exact fun _ => open_still
  | closed idle => exact fun busy => (busy idle).elim
  | handled choice delivery rest ready => exact fun _ => live (by rw [ready]; nofun)
  | sent sender command rest link commands busy | refused sender command rest link busy =>
      exact fun _ => live (by rw [busy]; nofun)
  | checked done => exact fun _ => live (by rw [done]; nofun)
  | added | registered | tasked | forwarded | abandoned => exact live

/-- A wait in a circle takes 1203 events: 101 that were handled, 1000 on the download channel,
one that the forwarder holds, 100 on the channel of the connection and one it still has. -/
theorem circle_takes (sha1 : Bytes → Hash) (manager : DownloadManager)
    (unregistered : manager.peers = ∅) (acts : List Act) (finish : Swarm) (log : List Note)
    (ran : run (program sha1) (Swarm.new manager) acts = some (finish, log))
    (waits : WaitsInCircle finish) : 1203 ≤ eventCount acts := by
  obtain ⟨sender, command, rest, link, busy, there,
    ⟨crowded, ⟨session, first, more, talks, -, unsent⟩, stuck, event, holding⟩, packed⟩ := waits
  have live := run_live sha1 manager acts finish log ran (by rw [busy]; nofun)
  have balance := run_balance sha1 manager acts finish log ran live
  have commands := run_commands sha1 manager unregistered acts finish log ran sender
  have handled : 101 ≤ handledIn log := by
    have full : commandsAt finish sender = 100 := by
      simp only [commandsAt, there]
      exact crowded
    have another : 1 ≤ pendingFor sender finish.loop := by simp [busy, pendingFor, commandsTo]
    omega
  have carried : 102 ≤ link.afloat.length := by
    simp only [Link.afloat, Link.unsent, holding, talks, unsent, Forwarder.holding,
      List.length_append, List.length_cons, show link.events.queue.length = 100 from stuck]
    omega
  have counted : link.afloat.length ≤ afloatCount finish :=
    List.le_sum_of_mem (List.mem_map_of_mem (List.mem_of_getElem? there))
  have queued : finish.inbox.queue.length = 1000 := packed
  omega

theorem running_listening (link : Link) (session : Session) (there : link.session = some session)
    (running : session.outcome = none) : link.listening = true := by
  unfold Link.listening
  rw [there]
  cases link.forwarder with
  | connecting => rfl
  | receiving | forwarding | finished => exact Option.isNone_iff_eq_none.mpr running

theorem stuck_task (link after : Link) (act : TaskAct) (notes : List TaskNote) (stuck : Stuck link)
    (tasked : Tasked link act after notes) : Stuck after := by
  obtain ⟨crowded, ⟨session, first, more, talks, running, unsent⟩, packed, event, holding⟩ := stuck
  have selecting : ∀ other : Session, link.session = some other → other.selects ≠ true := by
    intro other there selects
    obtain rfl := Option.some.inj (talks.symm.trans there)
    rw [((selects_iff session).mp selects).2.2] at unsent
    cases unsent
  cases tasked with
  | greet other bitfield there =>
      obtain rfl := Option.some.inj (talks.symm.trans there)
      exact ⟨crowded, ⟨_, first, more, rfl, running, unsent⟩, packed, event, holding⟩
  | take other _ _ there selects | read other _ there selects =>
      exact (selecting other there selects).elim
  | emit other _ _ events there _ _ sent => exact (full_refuses _ events _ packed sent).elim
  | ended act other outcome there _ why =>
      obtain rfl := Option.some.inj (talks.symm.trans there)
      rw [unsent, holding] at why
      rcases why with done | gone
      · cases done
      · cases gone
  | connected waiting | refused waiting =>
      rw [holding] at waiting
      cases waiting
  | receive _ _ ready | drained _ ready =>
      rw [holding] at ready
      cases ready

/-- Whatever the others do, the circle stays closed. -/
theorem circle_step (sha1 : Bytes → Hash) (before after : Swarm) (act : Act)
    (notes : List Note) (live : before.receiverOpen = true) (waits : WaitsInCircle before)
    (stepped : Stepped sha1 before act after notes) : WaitsInCircle after := by
  obtain ⟨sender, command, rest, link, busy, there, stuck, full⟩ := waits
  cases stepped with
  | added peerIp bitfield =>
      have kept := get_added before.peerManager peerIp bitfield sender
      rw [there] at kept
      exact ⟨sender, command, rest, link, busy, kept.resolve_right (by simp), stuck, full⟩
  | tasked origin act other changed said found tasked =>
      have here := get_set_link before origin sender other changed found
      by_cases same : origin = sender
      · subst same
        obtain rfl := Option.some.inj (there.symm.trans found)
        rw [if_pos rfl] at here
        exact ⟨origin, command, rest, changed, busy, here,
          stuck_task link changed act said stuck tasked, full⟩
      · rw [if_neg same, there] at here
        exact ⟨sender, command, rest, link, busy, here, stuck, full⟩
  | forwarded origin other event inbox found holding _ put =>
      exact (full_refuses before.inbox inbox _ full put).elim
  | abandoned origin other event found holding shut =>
      rw [live] at shut
      cases shut
  | sent origin first others link' commands sending found listens put =>
      rw [busy] at sending
      obtain ⟨⟨rfl, rfl⟩, rfl⟩ := by simpa using sending
      obtain rfl := Option.some.inj (there.symm.trans found)
      exact (full_refuses link.commands commands _ stuck.crowded put).elim
  | refused origin first others link' sending found deaf =>
      rw [busy] at sending
      obtain ⟨⟨rfl, rfl⟩, rfl⟩ := by simpa using sending
      obtain rfl := Option.some.inj (there.symm.trans found)
      obtain ⟨session, -, -, talks, running, -⟩ := stuck.talks
      rw [running_listening link session talks running] at deaf
      cases deaf
  | registered peerIp _ idle | started idle | closed idle =>
      rw [busy] at idle
      cases idle
  | handled _ _ _ ready =>
      rw [busy] at ready
      cases ready
  | checked done =>
      rw [busy] at done
      cases done

theorem circle_forever (sha1 : Bytes → Hash) (manager : DownloadManager) (past later : List Act)
    (middle finish : Swarm) (before after : List Note)
    (first : run (program sha1) (Swarm.new manager) past = some (middle, before))
    (waits : WaitsInCircle middle)
    (second : run (program sha1) middle later = some (finish, after)) : WaitsInCircle finish := by
  refine run_history (program sha1) middle later (fun _ swarm _ => WaitsInCircle swarm) waits ?_
    later (List.prefix_refl later) finish after second
  intro more act state log next notes _ ran held moved
  have whole := (run_append_iff _ _ state past more _).mpr ⟨middle, before, log, first, ran, rfl⟩
  have live := run_live sha1 manager (past ++ more) state _ whole (by
    obtain ⟨_, _, _, _, busy, _⟩ := held
    rw [busy]
    nofun)
  exact circle_step sha1 state next act notes live held
    (step_stepped sha1 state next act notes moved)

end Circle

section Closing

variable (sha1 : Bytes → Hash)

def announcement : PeerEvent := .receivedBitfield [128]

def answering : Loop := .sending [(0, .interested)]

structure Wants (manager : DownloadManager) : Prop where
  lacks : ∃ piece, manager.pieceManager.pieces.lookup 0 = some piece ∧ piece.isComplete = false
  knows : ∃ record, manager.peers.lookup default = some (0, record)

/-- One connection, and so many copies of one event and of the answer to it in flight. -/
def staged (senders : HashMap PeerIp Sender) (manager : DownloadManager) (state : PeerState)
    (loop : Loop) (forwarder : Forwarder) (unsent : List PeerEvent) (events commands inbox : Nat) :
    Swarm :=
  { peerManager :=
      { peerSenders := senders
        links := [{ peerIp := default
                    bitfield := none
                    forwarder
                    session := some { state, greeting := none, unsent, outcome := none }
                    events := .filled announcement events
                    commands := .filled .interested commands }] }
    inbox := .filled ⟨announcement, default, 0⟩ inbox
    receiverOpen := true
    manager
    loop }

def Staged (loop : Loop) (forwarder : Forwarder) (unsent : List PeerEvent)
    (events commands inbox : Nat) (swarm : Swarm) : Prop :=
  ∃ senders manager state, Wants manager ∧
    swarm = staged senders manager state loop forwarder unsent events commands inbox

theorem announcement_handled (choice : Choice) (manager : DownloadManager)
    (wants : Wants manager) :
    Wants (handleEvent sha1 choice manager announcement default).1 ∧
      (handleEvent sha1 choice manager announcement default).2.filterMap commandOf =
        [(0, .interested)] := by
  obtain ⟨⟨piece, found, needed⟩, record, known⟩ := wants
  have recorded : (modify manager.peers default fun peer => (peer.1, some [128])).lookup default =
      some (0, some [128]) := by
    rw [lookup_modify_self, known]
    rfl
  have offered : bitfieldPieces [128] = [0] := by decide
  have wanted : piece.state = .missing ∨ piece.state = .incomplete := by
    cases state : piece.state <;> simp_all [Piece.isComplete]
  have needs : peerHasNeededPieces { manager with
      peers := modify manager.peers default fun peer => (peer.1, some [128]) } default = true := by
    simp [peerHasNeededPieces, getPeerAvailablePieces, recorded, offered,
      PieceManager.getNextPieceToDownload, found, wanted]
  simp only [announcement, handle_event_bitfield, handleBitfield, needs, if_true, sendToPeer,
    recorded]
  exact ⟨⟨⟨piece, found, needed⟩, some [128], recorded⟩, rfl⟩

theorem read_leads (loop : Loop) (forwarder : Forwarder) (events commands inbox : Nat)
    (swarm : Swarm) (here : Staged loop forwarder [] events commands inbox swarm) :
    Leads (program sha1) raises swarm 1
      (Staged loop forwarder [announcement] events commands inbox) := by
  obtain ⟨senders, manager, state, wants, rfl⟩ := here
  exact leads_step (program sha1) raises _ _ (.task 0 (.read (.bitfield [128]))) _ _ rfl
    ⟨senders, manager, _, wants, rfl⟩

theorem emit_leads (loop : Loop) (forwarder : Forwarder) (listens : forwarder ≠ .finished)
    (events commands inbox : Nat) (room : events < 100) (swarm : Swarm)
    (here : Staged loop forwarder [announcement] events commands inbox swarm) :
    Leads (program sha1) raises swarm 0
      (Staged loop forwarder [] (events + 1) commands inbox) := by
  obtain ⟨senders, manager, state, wants, rfl⟩ := here
  refine leads_step (program sha1) raises _
    (staged senders manager state loop forwarder [] (events + 1) commands inbox) (.task 0 .emit) []
    _ ?_ ⟨senders, manager, state, wants, rfl⟩
  simp [program, step, staged, taskStep, sessionStep, listens, filled_send announcement events room,
    Swarm.setLink]

theorem receive_leads (loop : Loop) (unsent : List PeerEvent) (events commands inbox : Nat)
    (room : events < 100) (swarm : Swarm)
    (here : Staged loop .receiving unsent (events + 1) commands inbox swarm) :
    Leads (program sha1) raises swarm 0
      (Staged loop (.forwarding announcement) unsent events commands inbox) := by
  obtain ⟨senders, manager, state, wants, rfl⟩ := here
  refine leads_step (program sha1) raises _
    (staged senders manager state loop (.forwarding announcement) unsent events commands inbox)
    (.task 0 .receive) [] _ ?_ ⟨senders, manager, state, wants, rfl⟩
  simp [program, step, staged, taskStep, filled_recv announcement events room, Swarm.setLink]

theorem forward_leads (loop : Loop) (unsent : List PeerEvent) (events commands inbox : Nat)
    (room : inbox < 1000) (swarm : Swarm)
    (here : Staged loop (.forwarding announcement) unsent events commands inbox swarm) :
    Leads (program sha1) raises swarm 0
      (Staged loop .receiving unsent events commands (inbox + 1)) := by
  obtain ⟨senders, manager, state, wants, rfl⟩ := here
  refine leads_step (program sha1) raises _
    (staged senders manager state loop .receiving unsent events commands (inbox + 1))
    (.forward 0) [.enqueued ⟨announcement, default, 0⟩] _ ?_ ⟨senders, manager, state, wants, rfl⟩
  simp [program, step, staged, filled_send _ inbox room, Swarm.setLink]

theorem handle_leads (forwarder : Forwarder) (unsent : List PeerEvent)
    (events commands inbox : Nat) (room : inbox < 1000) (swarm : Swarm)
    (here : Staged .waiting forwarder unsent events commands (inbox + 1) swarm) :
    Leads (program sha1) raises swarm 0
      (Staged answering forwarder unsent events commands inbox) := by
  obtain ⟨senders, manager, state, wants, rfl⟩ := here
  obtain ⟨still, answer⟩ := announcement_handled sha1 default manager wants
  refine leads_step (program sha1) raises _
    (staged senders (handleEvent sha1 default manager announcement default).1 state
      answering forwarder unsent events commands inbox)
    (.handle default) [.handled ⟨announcement, default, 0⟩] _ ?_
    ⟨senders, _, state, still, rfl⟩
  simp [program, step, staged, answering, filled_recv _ inbox room, answer]

theorem send_leads (forwarder : Forwarder) (unsent : List PeerEvent)
    (events commands inbox : Nat) (room : commands < 100) (swarm : Swarm)
    (here : Staged answering forwarder unsent events commands inbox swarm) :
    Leads (program sha1) raises swarm 0
      (Staged (.sending []) forwarder unsent events (commands + 1) inbox) := by
  obtain ⟨senders, manager, state, wants, rfl⟩ := here
  refine leads_step (program sha1) raises _
    (staged senders manager state (.sending []) forwarder unsent events (commands + 1) inbox)
    .send [] _ ?_ ⟨senders, manager, state, wants, rfl⟩
  simp [program, step, staged, answering, running_listening, filled_send _ commands room,
    Swarm.setLink]

theorem check_leads (forwarder : Forwarder) (unsent : List PeerEvent)
    (events commands inbox : Nat) (swarm : Swarm)
    (here : Staged (.sending []) forwarder unsent events commands inbox swarm) :
    Leads (program sha1) raises swarm 0
      (Staged .waiting forwarder unsent events commands inbox) := by
  obtain ⟨senders, manager, state, wants, rfl⟩ := here
  obtain ⟨piece, found, needed⟩ := wants.lacks
  refine leads_step (program sha1) raises _
    (staged senders manager state .waiting forwarder unsent events commands inbox)
    .check [] _ ?_ ⟨senders, manager, state, wants, rfl⟩
  simp [program, step, staged, incomplete_piece manager.pieceManager 0 piece found needed]

theorem crowd_leads (loop : Loop) (forwarder : Forwarder) (listens : forwarder ≠ .finished)
    (events commands inbox : Nat) (room : events < 100) (swarm : Swarm)
    (here : Staged loop forwarder [] events commands inbox swarm) :
    Leads (program sha1) raises swarm 1 (Staged loop forwarder [] (events + 1) commands inbox) :=
  leads_trans _ _ _ 1 0 _ _ (read_leads sha1 loop forwarder events commands inbox swarm here)
    (emit_leads sha1 loop forwarder listens events commands inbox room)

theorem relay_leads (loop : Loop) (commands inbox : Nat) (room : inbox < 1000) (swarm : Swarm)
    (here : Staged loop .receiving [] 0 commands inbox swarm) :
    Leads (program sha1) raises swarm 1 (Staged loop .receiving [] 0 commands (inbox + 1)) := by
  have emitted := crowd_leads sha1 loop .receiving nofun 0 commands inbox (by decide) swarm here
  have received := leads_trans _ _ _ 1 0 _ _ emitted
    (receive_leads sha1 loop [] 0 commands inbox (by decide))
  exact leads_trans _ _ _ 1 0 _ _ received (forward_leads sha1 loop [] 0 commands inbox room)

theorem answer_leads (commands : Nat) (room : commands < 100) (swarm : Swarm)
    (here : Staged .waiting .receiving [] 0 commands 0 swarm) :
    Leads (program sha1) raises swarm 1 (Staged .waiting .receiving [] 0 (commands + 1) 0) := by
  have relayed := relay_leads sha1 .waiting commands 0 (by decide) swarm here
  have handled := leads_trans _ _ _ 1 0 _ _ relayed
    (handle_leads sha1 .receiving [] 0 commands 0 (by decide))
  have sent := leads_trans _ _ _ 1 0 _ _ handled (send_leads sha1 .receiving [] 0 commands 0 room)
  exact leads_trans _ _ _ 1 0 _ _ sent (check_leads sha1 .receiving [] 0 (commands + 1) 0)

theorem staged_waits (swarm : Swarm)
    (here : Staged answering (.forwarding announcement) [announcement] 100 100
      1000 swarm) : WaitsInCircle swarm := by
  obtain ⟨senders, manager, state, -, rfl⟩ := here
  exact ⟨0, .interested, [], _, rfl, rfl, ⟨filled_full _, ⟨_, _, _, rfl, rfl, rfl⟩, filled_full _,
    announcement, rfl⟩, filled_full _⟩

/-- The channels fill from the loop back to the connection: the commands while the loop still
handles events, then the download channel behind the command that the loop cannot send,
then the events behind the one that the forwarder cannot enqueue. -/
theorem staged_leads (swarm : Swarm) (here : Staged .waiting .receiving [] 0 0 0 swarm) :
    Leads (program sha1) raises swarm 1203 WaitsInCircle := by
  have commands_full : Leads (program sha1) raises swarm 100
      (Staged .waiting .receiving [] 0 100 0) :=
    leads_repeat _ _ (fun count => Staged .waiting .receiving [] 0 count 0) 100 1
      (fun count room => answer_leads sha1 count room) swarm here
  have next_relayed := leads_trans _ _ _ 100 1 _ _ commands_full
    (relay_leads sha1 .waiting 100 0 (by decide))
  have loop_stuck := leads_trans _ _ _ 101 0 _ _ next_relayed
    (handle_leads sha1 .receiving [] 0 100 0 (by decide))
  have inbox_full := leads_trans _ _ _ 101 1000 _ _ loop_stuck
    (leads_repeat _ _ (fun count => Staged answering .receiving [] 0 100 count) 1000 1
      fun count room => relay_leads sha1 answering 100 count room)
  have next_emitted := leads_trans _ _ _ 1101 1 _ _ inbox_full
    (crowd_leads sha1 answering .receiving nofun 0 100 1000 (by decide))
  have forwarder_stuck := leads_trans _ _ _ 1102 0 _ _ next_emitted
    (receive_leads sha1 answering [] 0 100 1000 (by decide))
  have events_full := leads_trans _ _ _ 1102 100 _ _ forwarder_stuck
    (leads_repeat _ _ (fun count => Staged answering (.forwarding announcement) [] count 100 1000)
      100 1 fun count room =>
        crowd_leads sha1 answering (.forwarding announcement) nofun count 100 1000 room)
  have connection_stuck := leads_trans _ _ _ 1202 1 _ _ events_full
    (read_leads sha1 answering (.forwarding announcement) 100 100 1000)
  exact leads_trans _ _ _ 1203 0 _ _ connection_stuck fun state stuck =>
    leads_refl _ _ state _ (staged_waits state stuck)

def introduction : List Act :=
  [.addPeer default none, .register default, .start, .task 0 .connected]

theorem introduction_staged (manager : DownloadManager) (piece : Piece)
    (found : manager.pieceManager.pieces.lookup 0 = some piece)
    (needed : piece.isComplete = false) :
    Leads (program sha1) raises (Swarm.new manager) 0 (Staged .waiting .receiving [] 0 0 0) := by
  have wants : Wants (addPeer manager default 0) :=
    ⟨⟨piece, found, needed⟩, none, AList.lookup_insert manager.peers⟩
  have ran : run (program sha1) (Swarm.new manager) introduction =
      some (staged (AList.insert default 0 ∅) (addPeer manager default 0) (PeerState.new none)
        .waiting .receiving [] 0 0 0, []) := by
    simp only [staged, filled_zero]
    rfl
  exact ⟨introduction, _, [], ran, rfl, _, _, _, wants, rfl⟩

/-- A wait in a circle can be reached with as few events as it takes. -/
theorem circle_reached (torrent : Torrent) (blockSize : UInt32) (start : DownloadManager)
    (began : DownloadManager.new torrent blockSize = some start)
    (some_piece : 0 < hashCount torrent.info) (disk : Bool) :
    Leads (program sha1) raises (Swarm.new { start with diskIo := disk }) 1203 WaitsInCircle := by
  obtain ⟨piece, found⟩ := start_piece torrent blockSize start began some_piece
  have needed := start_missing torrent blockSize start began 0 piece found
  exact leads_trans _ _ _ 0 1203 _ _ (introduction_staged sha1 _ piece found needed)
    (staged_leads sha1)

/-- No run in which the connections raise so few events ends with everybody waiting for
each other exactly when they are fewer than fill the circle, or nothing is ever sent. -/
theorem circle_free_iff (torrent : Torrent) (blockSize : UInt32) (start : DownloadManager)
    (began : DownloadManager.new torrent blockSize = some start) (disk : Bool) (most : Nat) :
    (∀ acts state log, run (program sha1) (Swarm.new { start with diskIo := disk }) acts =
        some (state, log) → eventCount acts ≤ most → ¬ WaitsInCircle state) ↔
      most < 1203 ∨ hashCount torrent.info = 0 := by
  have unregistered := Requests.start_unregistered torrent blockSize start began
  constructor
  · intro free
    by_contra enough
    rw [not_or, Nat.not_lt] at enough
    obtain ⟨acts, state, log, ran, spent, waits⟩ := circle_reached sha1 torrent blockSize start
      began (Nat.pos_of_ne_zero enough.2) disk
    exact free acts state log ran (Nat.le_trans (Nat.le_of_eq spent) enough.1) waits
  · rintro (few | no_piece) acts state log ran within waits
    · have takes := circle_takes sha1 { start with diskIo := disk } unregistered acts state log
        ran waits
      omega
    · obtain ⟨sender, command, rest, -, busy, -⟩ := waits
      cases no_pieces_silent sha1 torrent blockSize start began no_piece disk acts state log ran _
        busy

theorem circle_free_one :
    (∀ acts state log, run (program zeroHash) (Swarm.new { smallManager with diskIo := true })
        acts = some (state, log) → eventCount acts ≤ 1202 → ¬ WaitsInCircle state) ↔
      1202 < 1203 ∨ hashCount oneBlock.info = 0 :=
  circle_free_iff zeroHash oneBlock 16384 smallManager (Option.some_get _).symm true 1202

/-- One peer that keeps announcing the first piece. -/
theorem announcements_close_circle :
    ∃ acts state log, run (program zeroHash) (Swarm.new { smallManager with diskIo := true }) acts =
      some (state, log) ∧ WaitsInCircle state := by
  obtain ⟨acts, state, log, ran, -, waits⟩ := circle_reached zeroHash oneBlock 16384 smallManager
    (Option.some_get _).symm (by decide) true
  exact ⟨acts, state, log, ran, waits⟩

end Closing

end MotteSeed.CyclicWait
