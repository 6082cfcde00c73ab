import MotteSeed.Relay

/-! What the program ever says to its peers: no more messages than there were events that
call for them, and, as `main` composes it, none at all. -/
namespace MotteSeed.SpokenMessages
open Toolkit Toolkit.HashTable Toolkit.Runs Toolkit.Channels PeerWire PeerConnection TorrentMeta
  PieceStore DownloadSafety Downloads Availability PeerTasks Program PeerTracking Relay

section Heeding

def asksBlock : ManagerCommand → Bool
  | .requestBlock _ _ _ => true
  | _ => false

def unchokes (peerIp : PeerIp) : PeerEvent × PeerIp → Bool
  | (.peerUnchoked, origin) => origin = peerIp
  | _ => false

def announces (peerIp : PeerIp) : PeerEvent × PeerIp → Bool
  | (.receivedBitfield _, origin) => origin = peerIp
  | _ => false

def delivers (index : UInt32) : PeerEvent × PeerIp → Bool
  | (.receivedPiece piece _ _, _) => piece = index
  | _ => false

/-- Every command to a peer answers an event of its own: a request an unchoke of this
peer, the interest a bitfield of this peer, the news of a piece a block of that piece. -/
structure Answered (events : List (PeerEvent × PeerIp)) (peerIp : PeerIp)
    (commands : List ManagerCommand) : Prop where
  requests : commands.countP asksBlock ≤ events.countP (unchokes peerIp)
  interests : commands.count .interested ≤ events.countP (announces peerIp)
  haves : ∀ index, commands.count (.havePiece index) ≤ events.countP (delivers index)
  others : ∀ command ∈ commands, asksBlock command = true ∨ command = .interested ∨
    ∃ index, command = .havePiece index

theorem answered_nil (events : List (PeerEvent × PeerIp)) (peerIp : PeerIp) :
    Answered events peerIp [] :=
  ⟨Nat.zero_le _, Nat.zero_le _, fun _ => Nat.zero_le _, nofun⟩

theorem answered_append (past later : List (PeerEvent × PeerIp)) (peerIp : PeerIp)
    (asked more : List ManagerCommand) (before : Answered past peerIp asked)
    (after : Answered later peerIp more) : Answered (past ++ later) peerIp (asked ++ more) := by
  refine ⟨?_, ?_, fun index => ?_, fun command member => ?_⟩
  · rw [List.countP_append, List.countP_append]
    exact Nat.add_le_add before.requests after.requests
  · rw [List.count_append, List.countP_append]
    exact Nat.add_le_add before.interests after.interests
  · rw [List.count_append, List.countP_append]
    exact Nat.add_le_add (before.haves index) (after.haves index)
  · rcases List.mem_append.mp member with old | new
    · exact before.others command old
    · exact after.others command new

theorem answered_prefix (events : List (PeerEvent × PeerIp)) (peerIp : PeerIp)
    (first rest : List ManagerCommand) (answered : Answered events peerIp (first ++ rest)) :
    Answered events peerIp first := by
  obtain ⟨requests, interests, haves, others⟩ := answered
  rw [List.countP_append] at requests
  rw [List.count_append] at interests
  refine ⟨by omega, by omega, fun index => ?_, fun command member => ?_⟩
  · have counted := haves index
    rw [List.count_append] at counted
    omega
  · exact others command (List.mem_append_left rest member)

theorem commands_for_everyone {Peer : Type} (peers : List Peer) (senderOf : Peer → Sender)
    (sender : Sender) (command : ManagerCommand) :
    commandsFor sender (peers.map fun peer => (senderOf peer, command)) =
      List.replicate (peers.countP fun peer => senderOf peer = sender) command := by
  induction peers with
  | nil => rfl
  | cons peer rest ih =>
      rw [List.map_cons, commands_for_cons, ih, List.countP_cons]
      by_cases mine : senderOf peer = sender
      · simp [mine, List.replicate_succ]
      · simp [mine]

variable (home : Sender → Option PeerIp)

def Homed (manager : DownloadManager) : Prop :=
  ∀ peerIp sender record, manager.peers.lookup peerIp = some (sender, record) →
    home sender = some peerIp

theorem homed_once (choice : Choice) (manager : DownloadManager) (homed : Homed home manager)
    (sender : Sender) :
    ((choice.peerOrder.arrange manager.peers.entries).countP fun peer => peer.2.1 = sender) ≤
      1 := by
  rw [(choice.peerOrder.perm manager.peers.entries).countP_eq]
  refine count_entries_le_one manager.peers (fun peer => peer.1 = sender) ?_
  intro first second peer other here there mine yours
  have one := homed first peer.1 peer.2 here
  have two := homed second other.1 other.2 there
  rw [of_decide_eq_true mine] at one
  rw [of_decide_eq_true yours, one] at two
  exact Option.some.inj two

theorem event_answered (choice : Choice) (manager : DownloadManager) (homed : Homed home manager)
    (event : PeerEvent) (origin peerIp : PeerIp) (commands : List (Sender × ManagerCommand))
    (answers : Answers choice manager event origin commands) (sender : Sender)
    (lives : home sender = some peerIp) :
    Answered [(event, origin)] peerIp (commandsFor sender commands) := by
  cases answers with
  | nothing => exact answered_nil _ peerIp
  | interested bitfield _ other record known =>
      rw [commands_for_cons]
      split
      · rename_i mine
        have here := homed origin other record known
        rw [show other = sender from mine, lives] at here
        obtain rfl := Option.some.inj here
        refine ⟨Nat.zero_le _, ?_, fun _ => Nat.zero_le _, ?_⟩
        · simp [announces, commandsFor]
        · simp [commandsFor]
      · exact answered_nil _ peerIp
  | requested _ other record index begin length known =>
      rw [commands_for_cons]
      split
      · rename_i mine
        have here := homed origin other record known
        rw [show other = sender from mine, lives] at here
        obtain rfl := Option.some.inj here
        refine ⟨?_, Nat.zero_le _, fun _ => Nat.zero_le _, ?_⟩
        · simp [unchokes, commandsFor, asksBlock]
        · simp [commandsFor, asksBlock]
      · exact answered_nil _ peerIp
  | announced index begin block =>
      rw [commands_for_everyone]
      have once := homed_once home choice manager homed sender
      generalize (choice.peerOrder.arrange manager.peers.entries).countP
        (fun peer => peer.2.1 = sender) = count at once ⊢
      refine ⟨?_, ?_, fun other => ?_, fun command member => ?_⟩
      · simp [List.countP_replicate, asksBlock]
      · simp [List.count_replicate]
      · by_cases same : index = other
        · subst same
          simpa [delivers] using once
        · simp [List.count_replicate, same]
      · exact Or.inr (Or.inr ⟨index, List.eq_of_mem_replicate member⟩)

theorem homed_step (sha1 : Bytes → Hash) (manager : DownloadManager) (call : Call)
    (homed : Homed home manager)
    (introduced : ∀ peerIp sender, call = .addPeer peerIp sender → home sender = some peerIp) :
    Homed home (perform sha1 manager call).1 := by
  intro peerIp sender record found
  cases call with
  | addPeer newcomer newSender =>
      by_cases same : peerIp = newcomer
      · subst same
        have entry : (perform sha1 manager (.addPeer peerIp newSender)).1.peers.lookup peerIp =
            some (newSender, none) := AList.lookup_insert _
        obtain ⟨rfl, -⟩ := Prod.mk.inj (Option.some.inj (entry.symm.trans found))
        exact introduced peerIp newSender rfl
      · exact homed peerIp sender record ((AList.lookup_insert_ne same).symm.trans found)
  | removePeer leaver =>
      by_cases same : peerIp = leaver
      · subst same
        cases (AList.lookup_erase peerIp manager.peers).symm.trans found
      · exact homed peerIp sender record ((AList.lookup_erase_ne same).symm.trans found)
  | setDiskIo => exact homed peerIp sender record found
  | event event origin choice =>
      obtain ⟨old, known⟩ :=
        handled_sender sha1 choice manager event origin peerIp sender record found
      exact homed peerIp sender old known

theorem call_answered (sha1 : Bytes → Hash) (manager : DownloadManager) (call : Call)
    (homed : Homed home manager) (sender : Sender) (peerIp : PeerIp)
    (lives : home sender = some peerIp) :
    Answered ([call].filterMap eventOf) peerIp (issuedTo sender (perform sha1 manager call).2) := by
  cases call with
  | addPeer | removePeer | setDiskIo => exact answered_nil _ peerIp
  | event event origin choice =>
      exact event_answered home choice manager homed event origin peerIp _
        (event_answers sha1 choice manager event origin) sender lives

theorem run_answered (sha1 : Bytes → Hash) (manager finish : DownloadManager)
    (unregistered : manager.peers = ∅) (calls : List Call) (actions : List Action)
    (introduced : ∀ peerIp sender, .addPeer peerIp sender ∈ calls → home sender = some peerIp)
    (ran : run (downloads sha1) manager calls = some (finish, actions)) (sender : Sender)
    (peerIp : PeerIp) (lives : home sender = some peerIp) :
    Answered (calls.filterMap eventOf) peerIp (issuedTo sender actions) := by
  refine (run_history (downloads sha1) manager calls
    (fun past state log => Homed home state ∧
      Answered (past.filterMap eventOf) peerIp (issuedTo sender log))
    ⟨?_, answered_nil _ peerIp⟩ ?_ calls (List.prefix_refl calls) finish actions ran).2
  · intro known other record found
    rw [unregistered] at found
    cases found
  · rintro past call state log next emitted began - ⟨homed, answered⟩ moved
    obtain ⟨rfl, rfl⟩ := Prod.mk.inj (Option.some.inj moved)
    have here : call ∈ calls := began.subset (List.mem_append_right past List.mem_cons_self)
    refine ⟨homed_step home sha1 state call homed fun known other same => ?_, ?_⟩
    · exact introduced known other (same ▸ here)
    · rw [List.filterMap_append, issued_to_append]
      exact answered_append _ _ peerIp _ _ answered
        (call_answered home sha1 state call homed sender peerIp lives)

end Heeding

section Whole

variable (sha1 : Bytes → Hash) (manager : DownloadManager)

/-- After its bitfield, if it was given one, a connection serializes nothing but requests, the
interest and the news of pieces, and no more of them than there were unchokes and
bitfields of its peer and blocks of the piece to answer. -/
theorem messages_answer (unregistered : manager.peers = ∅) (acts : List Act) (finish : Swarm)
    (log : List Note)
    (ran : run (program sha1) (Swarm.new manager) acts = some (finish, log)) (sender : Sender)
    (link : Link) (there : finish.peerManager.links[sender]? = some link) :
    ∃ commands, serializedBy sender log = greeted link ++ commands.filterMap commandMessage ∧
      Answered ((handledIn log).map tagOf) link.peerIp commands := by
  obtain ⟨calls, actions, goes, taken, called, -, -, speaks, -⟩ :=
    run_relayed acts sha1 manager unregistered finish log ran
  obtain ⟨-, -, past, lost, said, issued, -⟩ := speaks sender link there
  have here : finish.addresses[sender]? = some link.peerIp := by
    rw [Swarm.addresses, List.getElem?_map, there, Option.map_some]
  have answered := run_answered (fun sender => finish.addresses[sender]?) sha1 manager
    finish.manager unregistered calls actions ?_ goes sender link.peerIp here
  · rw [taken, issued] at answered
    exact ⟨past, said, answered_prefix _ _ past _ answered⟩
  · intro peerIp other member
    rcases called _ member with event | ⟨known, home, same, -, lives⟩
    · cases event
    · obtain ⟨rfl, rfl⟩ := Call.addPeer.inj same
      exact lives

theorem messages_answer_interest :
    ∃ finish log link, run (program zeroHash) (Swarm.new smallManager) interestShown =
        some (finish, log) ∧ finish.peerManager.links[0]? = some link ∧
      ∃ commands, serializedBy 0 log = greeted link ++ commands.filterMap commandMessage ∧
        Answered ((handledIn log).map tagOf) link.peerIp commands :=
  ⟨_, _, _, rfl, rfl, messages_answer zeroHash smallManager rfl interestShown _ _ rfl 0 _ rfl⟩

end Whole

section Main

variable (sha1 : Bytes → Hash)

theorem strangers_run (manager finish : DownloadManager)
    (unregistered : ∀ peerIp, manager.peers.lookup peerIp = none) (calls : List Call)
    (actions : List Action) (strangers : ∀ call ∈ calls, (eventOf call).isSome = true)
    (ran : run (downloads sha1) manager calls = some (finish, actions)) :
    (∀ peerIp, finish.peers.lookup peerIp = none) ∧ ∀ sender, issuedTo sender actions = [] := by
  refine run_history (downloads sha1) manager calls
    (fun _ state log => (∀ peerIp, state.peers.lookup peerIp = none) ∧
      ∀ sender, issuedTo sender log = [])
    ⟨unregistered, fun _ => rfl⟩ ?_ calls (List.prefix_refl calls) finish actions ran
  rintro past call state log next emitted began - ⟨nobody, silent⟩ moved
  obtain ⟨rfl, rfl⟩ := Prod.mk.inj (Option.some.inj moved)
  have stranger := strangers call (began.subset (List.mem_append_right past List.mem_cons_self))
  cases call with
  | addPeer | removePeer | setDiskIo => cases stranger
  | event event origin choice =>
      constructor
      · refine fun peerIp => Option.eq_none_iff_forall_ne_some.mpr fun entry found => ?_
        obtain ⟨old, known⟩ :=
          handled_sender sha1 choice state event origin peerIp entry.1 entry.2 found
        rw [nobody] at known
        cases known
      · intro sender
        rw [issued_to_append, silent, List.nil_append]
        refine List.eq_nil_iff_forall_not_mem.mpr fun command member => ?_
        obtain ⟨known, record, found⟩ := answers_known choice state event origin _
          (event_answers sha1 choice state event origin) sender command
          ((mem_commands_for sender _ command).mp member)
        rw [nobody] at found
        cases found

theorem strangers_unmarked (torrent : Torrent) (blockSize : UInt32)
    (start finish : DownloadManager) (began : DownloadManager.new torrent blockSize = some start)
    (calls : List Call) (actions : List Action)
    (strangers : ∀ call ∈ calls, (eventOf call).isSome = true)
    (ran : run (downloads sha1) (setDiskIo start) calls = some (finish, actions))
    (index : UInt32) (offset : Nat) (block : Block) (owner : PeerIp) :
    ¬ Requests.Requested finish index offset block owner := by
  refine run_history (downloads sha1) (setDiskIo start) calls
    (fun _ state _ => ∀ index offset block owner,
      ¬ Requests.Requested state index offset block owner)
    (Requests.start_unmarked torrent blockSize start began) ?_ calls (List.prefix_refl calls)
    finish actions ran index offset block owner
  intro past call state log next emitted further reached unmarked moved
  have sound := run_sound sha1 torrent blockSize start state (.setDiskIo :: past) log began
    ((run_cons_iff (downloads sha1) start state .setDiskIo past log).mpr
      ⟨setDiskIo start, [], log, rfl, reached, rfl⟩)
  have marks := Requests.perform_marks sha1 state call sound
  have same : perform sha1 state call = (next, emitted) := Option.some.inj moved
  rw [same] at marks
  cases marks with
  | kept call after actions older =>
      intro index offset block owner marked
      exact unmarked index offset block owner (older index offset block owner marked)
  | asked peerIp choice index piece offset block found there next =>
      have started := Requests.start_unregistered torrent blockSize start began
      have nobody := (strangers_run sha1 (setDiskIo start) state
        (fun peerIp => by rw [setDiskIo, started]; rfl) past log
        (fun call member => strangers call
          (further.subset (List.mem_append_left _ member))) reached).1 peerIp
      obtain ⟨sender, bitfield, known⟩ := Requests.needed_registered state peerIp index next
      rw [nobody] at known
      cases known

theorem main_statements (peers : List PeerIp) (diskReady : Bool) (act : Act)
    (member : act ∈ mainProgram peers diskReady) :
    act = .start ∨ ∃ peerIp, act = .addPeer peerIp none := by
  unfold mainProgram at member
  split at member
  · cases member
  · split at member
    · rcases List.mem_append.mp member with added | started
      · obtain ⟨peerIp, -, rfl⟩ := List.mem_map.mp added
        exact Or.inr ⟨peerIp, rfl⟩
      · exact Or.inl (List.mem_singleton.mp started)
    · cases member

theorem composed_statement (peers : List PeerIp) (diskReady : Bool) (acts : List Act)
    (composed : acts.filter mainStatement <+: mainProgram peers diskReady) (act : Act)
    (member : act ∈ acts) (stated : mainStatement act = true) :
    act = .start ∨ ∃ peerIp, act = .addPeer peerIp none :=
  main_statements peers diskReady act
    (composed.subset (List.mem_filter.mpr ⟨member, stated⟩))

theorem tasked_bitfield (link after : Link) (act : TaskAct) (notes : List TaskNote)
    (tasked : Tasked link act after notes) : after.bitfield = link.bitfield := by
  cases tasked <;> rfl

theorem run_ungreeting (start : Swarm) (unlinked : start.peerManager.links = [])
    (acts : List Act) (ungiven : ∀ peerIp bitfield, .addPeer peerIp bitfield ∈ acts →
      bitfield = none) (finish : Swarm) (log : List Note)
    (ran : run (program sha1) start acts = some (finish, log)) :
    ∀ link ∈ finish.peerManager.links, link.bitfield = none := by
  refine run_history (program sha1) start acts
    (fun _ swarm _ => ∀ link ∈ swarm.peerManager.links, link.bitfield = none) ?_ ?_ acts
    (List.prefix_refl acts) finish log ran
  · intro link member
    rw [unlinked] at member
    cases member
  · intro past act before _ after notes began _ bare moved
    have changed : ∀ (sender : Sender) (link next : Link),
        before.peerManager.links[sender]? = some link → next.bitfield = link.bitfield →
        ∀ other ∈ (before.setLink sender next).peerManager.links, other.bitfield = none := by
      intro sender link next there same other member
      rcases set_link_links before sender next other member with old | rfl
      · exact bare other old
      · exact same.trans (bare link (List.mem_of_getElem? there))
    cases step_stepped sha1 before after act notes moved with
    | added peerIp bitfield =>
        intro link member
        rcases List.mem_append.mp member with old | new
        · exact bare link old
        · obtain rfl := List.mem_singleton.mp new
          exact ungiven peerIp bitfield
            (began.subset (List.mem_append_right past List.mem_cons_self))
    | tasked sender act link next turn there tasked =>
        exact changed sender link next there (tasked_bitfield link next act turn tasked)
    | forwarded sender link _ _ there | abandoned sender link _ there
    | sent sender _ _ link _ _ there => exact changed sender link _ there rfl
    | registered | started | closed | handled | refused | checked => exact bare

/-- As `main` composes the program it never speaks: whatever the peers say and in whatever
order the tasks run, no connection is given a command or writes a message, nobody is
registered, and no block is ever asked for. -/
theorem main_never_speaks (torrent : Torrent) (start : DownloadManager)
    (began : DownloadManager.new torrent 16384 = some start) (peers : List PeerIp)
    (diskReady : Bool) (acts : List Act) (state : Swarm) (log : List Note)
    (composed : acts.filter mainStatement <+: mainProgram peers diskReady)
    (ran : run (program sha1) (Swarm.new (setDiskIo start)) acts = some (state, log)) :
    (∀ sender message, .task sender (.serialized message) ∉ log) ∧
      (∀ link ∈ state.peerManager.links, link.commands.queue = []) ∧
      (∀ peerIp, state.manager.peers.lookup peerIp = none) ∧
      ∀ index offset block owner,
        ¬ Requests.Requested state.manager index offset block owner := by
  have started : (setDiskIo start).peers = ∅ :=
    Requests.start_unregistered torrent 16384 start began
  obtain ⟨calls, actions, goes, -, called, -, -, speaks, unborn⟩ :=
    run_relayed acts sha1 (setDiskIo start) started state log ran
  have strangers : ∀ call ∈ calls, (eventOf call).isSome = true := by
    intro call member
    rcases called call member with event | ⟨peerIp, sender, -, asked, -⟩
    · exact event
    · rcases composed_statement peers diskReady acts composed _ asked rfl with same | ⟨_, same⟩ <;>
        cases same
  obtain ⟨nobody, silent⟩ := strangers_run sha1 (setDiskIo start) state.manager
    (fun peerIp => by rw [started]; rfl) calls actions strangers goes
  have bare := run_ungreeting sha1 (Swarm.new (setDiskIo start)) rfl acts ?_ state log ran
  · have idle : ∀ (sender : Sender) (link : Link), state.peerManager.links[sender]? = some link →
        serializedBy sender log = [] ∧ link.commands.queue = [] := by
      intro sender link there
      obtain ⟨-, -, taken, lost, said, issued, -⟩ := speaks sender link there
      rw [silent] at issued
      obtain ⟨rfl, rest⟩ := List.append_eq_nil_iff.mp issued.symm
      refine ⟨?_, (List.append_eq_nil_iff.mp rest).1⟩
      rw [said, greeted]
      split
      · simp [bare link (List.mem_of_getElem? there)]
      · rfl
    refine ⟨fun sender message member => ?_, fun link member => ?_, nobody,
      strangers_unmarked sha1 torrent 16384 start state.manager began calls actions strangers goes⟩
    · have written : message ∈ serializedBy sender log :=
        List.mem_filterMap.mpr ⟨_, member, if_pos rfl⟩
      cases there : state.peerManager.links[sender]? with
      | none =>
          rw [(unborn sender there).1] at written
          cases written
      | some link =>
          rw [(idle sender link there).1] at written
          cases written
    · obtain ⟨sender, there⟩ := List.mem_iff_getElem?.mp member
      exact (idle sender link there).2
  · intro peerIp bitfield added
    rcases composed_statement peers diskReady acts composed _ added rfl with same | ⟨_, same⟩
    · cases same
    · exact (Act.addPeer.inj same).2

def unasked : List Act :=
  mainProgram [default] true ++ [.task 0 .connected, .task 0 (.read (.piece 0 0 [1])),
    .task 0 .emit, .task 0 .receive, .forward 0, .handle default]

theorem main_never_speaks_unasked :
    ∃ state log, run (program zeroHash) (Swarm.new (setDiskIo smallManager)) unasked =
        some (state, log) ∧
      (∀ sender message, .task sender (.serialized message) ∉ log) ∧
      (∀ link ∈ state.peerManager.links, link.commands.queue = []) ∧
      (∀ peerIp, state.manager.peers.lookup peerIp = none) ∧
      ∀ index offset block owner,
        ¬ Requests.Requested state.manager index offset block owner :=
  ⟨_, _, rfl, main_never_speaks zeroHash oneBlock smallManager (Option.some_get _).symm [default]
    true unasked _ _ ⟨[], rfl⟩ rfl⟩

end Main

end MotteSeed.SpokenMessages
