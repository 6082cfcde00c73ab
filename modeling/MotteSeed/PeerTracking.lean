import MotteSeed.Program
import MotteSeed.Requests

/-! What the two managers know about the peers that were added: whether the download
manager has heard of them, how it learns that one is gone, and whether the peer manager
forgets those whose tasks have ended. -/
namespace MotteSeed.PeerTracking
open Toolkit Toolkit.HashTable Toolkit.Runs Toolkit.Channels PeerWire PeerConnection TorrentMeta
  PieceStore DownloadSafety Downloads Availability Requests PeerTasks Program

section Senders

/-- Both tasks of the link have ended, or the first has and there never was a second. -/
def Finished (link : Link) : Prop :=
  link.forwarder = .finished ∧ ∀ session, link.session = some session →
    session.outcome.isSome = true

def Running (link : Link) : Prop := ∃ session, link.session = some session ∧ session.outcome = none

/-- `get_peer_sender` forgets an address with its tasks, and while one of them runs it
gives the last sender made for the address. -/
structure Tracks (swarm : Swarm) (peerIp : PeerIp) : Prop where
  forgotten : (∀ link ∈ swarm.peerManager.links, link.peerIp = peerIp → Finished link) →
    swarm.peerManager.getPeerSender peerIp = none
  latest : (∃ link ∈ swarm.peerManager.links, link.peerIp = peerIp ∧ Running link) →
    ∃ sender, swarm.peerManager.getPeerSender peerIp = some sender ∧
      swarm.addresses[sender]? = some peerIp ∧
        ∀ later : Nat, swarm.addresses[later]? = some peerIp → later ≤ sender

theorem address_mem (swarm : Swarm) (peerIp : PeerIp) :
    peerIp ∈ swarm.addresses ↔ ∃ link ∈ swarm.peerManager.links, link.peerIp = peerIp :=
  List.mem_map

/-- An entry of the table is never removed, so it is forgotten only if it never was there. -/
theorem tracks_iff_unfinished (swarm : Swarm)
    (tabled : Tabled swarm.peerManager.peerSenders swarm.addresses) (peerIp : PeerIp) :
    Tracks swarm peerIp ↔ (peerIp ∈ swarm.addresses →
      ∃ link ∈ swarm.peerManager.links, link.peerIp = peerIp ∧ ¬ Finished link) := by
  constructor
  · intro tracks member
    by_contra none_left
    have known := tabled.known peerIp member
    rw [show swarm.peerManager.peerSenders.lookup peerIp = none from tracks.forgotten ?_] at known
    · cases known
    · intro link spawned same
      by_contra unfinished
      exact none_left ⟨link, spawned, same, unfinished⟩
  · intro alive
    constructor
    · intro finished
      cases found : swarm.peerManager.getPeerSender peerIp with
      | none => rfl
      | some sender =>
          have here := (tabled.latest peerIp sender found).1
          obtain ⟨link, spawned, same, unfinished⟩ := alive (List.mem_of_getElem? here)
          exact (unfinished (finished link spawned same)).elim
    · rintro ⟨link, spawned, same, -⟩
      have known := tabled.known peerIp ((address_mem swarm peerIp).mpr ⟨link, spawned, same⟩)
      obtain ⟨sender, found⟩ := Option.isSome_iff_exists.mp known
      exact ⟨sender, found, tabled.latest peerIp sender found⟩

/-- In a run every address is tracked in every state exactly when no address ever runs out
of unfinished tasks. -/
theorem tracks_iff (sha1 : Bytes → Hash) (manager : DownloadManager) (acts : List Act) :
    (∀ past state log, past <+: acts →
        run (program sha1) (Swarm.new manager) past = some (state, log) →
        ∀ peerIp, Tracks state peerIp) ↔
      ∀ past state log, past <+: acts →
        run (program sha1) (Swarm.new manager) past = some (state, log) →
        ∀ peerIp ∈ state.addresses,
          ∃ link ∈ state.peerManager.links, link.peerIp = peerIp ∧ ¬ Finished link := by
  constructor
  · intro tracked past state log reached ran peerIp
    have tabled := run_tabled sha1 manager past state log ran
    exact (tracks_iff_unfinished state tabled peerIp).mp (tracked past state log reached ran peerIp)
  · intro alive past state log reached ran peerIp
    have tabled := run_tabled sha1 manager past state log ran
    exact (tracks_iff_unfinished state tabled peerIp).mpr (alive past state log reached ran peerIp)

/-- The connection is refused, and the address keeps its sender. -/
theorem refused_peer_kept :
    ∃ state log, run (program zeroHash) (Swarm.new oneBlockManager)
        [.addPeer default none, .task 0 .refused] = some (state, log) ∧
      ¬ Tracks state default := by
  refine ⟨_, _, rfl, fun tracks => ?_⟩
  have forgotten := tracks.forgotten (by
    intro link spawned _
    obtain rfl := List.mem_singleton.mp spawned
    exact ⟨rfl, fun session there => by cases there⟩)
  cases forgotten

end Senders

section Introductions

def mainStatement : Act → Bool
  | .addPeer _ _ | .register _ | .start | .closeReceiver => true
  | .task _ _ | .forward _ | .handle _ | .send | .check => false

/-- What `main` does with the peers of the trackers, from the moment it has them until it
awaits the loop. -/
def mainProgram (peers : List PeerIp) (diskReady : Bool) : List Act :=
  if peers.isEmpty then []
  else if diskReady then
    (peers.take (min peers.length 10)).map (fun peerIp => .addPeer peerIp none) ++ [.start]
  else []

/-- The event that the loop takes next comes from a registered peer, with a sender to the
connection it comes from. -/
def Introduced (swarm : Swarm) : Prop :=
  swarm.loop = .waiting → ∀ delivery rest, swarm.inbox.queue = delivery :: rest →
    ∃ record, swarm.manager.peers.lookup delivery.peerIp = some (delivery.origin, record)

theorem silent_program (sha1 : Bytes → Hash) (manager : DownloadManager) (acts : List Act)
    (quiet : acts.filter mainStatement = []) (state : Swarm) (log : List Note)
    (ran : run (program sha1) (Swarm.new manager) acts = some (state, log)) :
    state.peerManager.links = [] ∧ state.inbox.queue = [] := by
  refine run_history (program sha1) (Swarm.new manager) acts
    (fun _ swarm _ => swarm.peerManager.links = [] ∧ swarm.inbox.queue = [])
    ⟨rfl, rfl⟩ ?_ acts (List.prefix_refl acts) state log ran
  rintro past act before _ after notes began - ⟨unlinked, empty⟩ stepped
  have here : act ∈ acts := began.subset (List.mem_append_right past List.mem_cons_self)
  have task_of : ¬ mainStatement act = true := List.filter_eq_nil_iff.mp quiet act here
  cases step_stepped sha1 before after act notes stepped with
  | added | registered | started | closed => exact (task_of rfl).elim
  | tasked _ _ _ _ _ there | forwarded _ _ _ _ there | abandoned _ _ _ there
  | sent _ _ _ _ _ _ there =>
      rw [unlinked] at there
      cases there
  | handled choice delivery rest ready taken =>
      rw [empty] at taken
      cases taken
  | refused | checked => exact ⟨unlinked, empty⟩

theorem run_add_peers (sha1 : Bytes → Hash) (peers : List PeerIp) (start : Swarm) :
    ∃ senders, run (program sha1) start (peers.map fun peerIp => .addPeer peerIp none) =
      some ({ start with
        peerManager := ⟨senders, start.peerManager.links ++
          peers.map fun peerIp => Link.new peerIp none⟩ }, []) := by
  induction peers generalizing start with
  | nil => exact ⟨start.peerManager.peerSenders, by simp⟩
  | cons first rest ih =>
      obtain ⟨senders, ran⟩ := ih { start with peerManager := start.peerManager.addPeer first none }
      have whole := (run_cons_iff (program sha1) start _ (.addPeer first none) _ []).mpr
        ⟨_, [], [], rfl, ran, rfl⟩
      refine ⟨senders, ?_⟩
      rw [List.map_cons, whole]
      simp [PeerManager.addPeer]

def firstWords : List Act :=
  [.start, .task 0 .connected, .task 0 (.read .choke), .task 0 .emit, .task 0 .receive, .forward 0]

theorem first_words_run (sha1 : Bytes → Hash) (manager : DownloadManager)
    (senders : HashMap PeerIp Sender) (peerIp : PeerIp) (others : List Link) :
    ∃ state log, run (program sha1)
        { Swarm.new manager with peerManager := ⟨senders, Link.new peerIp none :: others⟩ }
        firstWords = some (state, log) ∧
      state.loop = .waiting ∧ state.inbox.queue = [⟨.peerChoked, peerIp, 0⟩] ∧
      state.manager = manager :=
  ⟨_, _, rfl, rfl, rfl, rfl⟩

theorem unintroduced (sha1 : Bytes → Hash) (manager : DownloadManager)
    (unregistered : manager.peers = ∅) (first : PeerIp) (rest : List PeerIp) :
    ∃ acts state log, acts.filter mainStatement <+: mainProgram (first :: rest) true ∧
      run (program sha1) (Swarm.new manager) acts = some (state, log) ∧ ¬ Introduced state := by
  obtain ⟨more, taken⟩ : ∃ more,
      (first :: rest).take (min (first :: rest).length 10) = first :: more := by
    refine ⟨rest.take (min rest.length 9), ?_⟩
    rw [List.length_cons, show min (rest.length + 1) 10 = min rest.length 9 + 1 by omega,
      List.take_succ_cons]
  have statements : mainProgram (first :: rest) true =
      (first :: more).map (fun peerIp => .addPeer peerIp none) ++ [.start] := by
    rw [mainProgram, taken]
    rfl
  obtain ⟨senders, added⟩ := run_add_peers sha1 (first :: more) (Swarm.new manager)
  obtain ⟨state, log, spoke, waiting, queued, same⟩ := first_words_run sha1 manager senders first
    (more.map fun peerIp => Link.new peerIp none)
  refine ⟨(first :: more).map (fun peerIp => .addPeer peerIp none) ++ firstWords, state, log,
    ?_, (run_append_iff _ _ _ _ _ _).mpr ⟨_, [], log, added, spoke, rfl⟩, ?_⟩
  · have kept : ((first :: more).map fun peerIp => Act.addPeer peerIp none).filter mainStatement =
        (first :: more).map fun peerIp => Act.addPeer peerIp none := by
      rw [List.filter_map]
      exact congrArg _ (List.filter_eq_self.mpr fun _ _ => rfl)
    rw [List.filter_append, kept, statements]
    exact List.prefix_refl _
  · intro introduced
    obtain ⟨record, found⟩ := introduced waiting _ [] queued
    rw [same, unregistered] at found
    cases found

/-- In the program as `main` composes it, events only ever come from registered peers
exactly when `main` adds no peer at all. -/
theorem introduced_iff (sha1 : Bytes → Hash) (torrent : Torrent) (start : DownloadManager)
    (began : DownloadManager.new torrent 16384 = some start) (peers : List PeerIp)
    (diskReady : Bool) :
    (∀ acts state log, acts.filter mainStatement <+: mainProgram peers diskReady →
        run (program sha1) (Swarm.new (setDiskIo start)) acts = some (state, log) →
        Introduced state) ↔ peers = [] ∨ diskReady = false := by
  constructor
  · intro introduced
    by_contra adds
    rw [not_or, Bool.not_eq_false] at adds
    obtain ⟨first, rest, rfl⟩ := List.exists_cons_of_ne_nil adds.1
    obtain ⟨acts, state, log, composed, ran, stranger⟩ := unintroduced sha1 (setDiskIo start)
      (start_unregistered torrent 16384 start began) first rest
    rw [adds.2] at introduced
    exact stranger (introduced acts state log composed ran)
  · rintro silent acts state log composed ran - delivery rest queued
    have nothing : mainProgram peers diskReady = [] := by
      rcases silent with rfl | rfl <;> simp [mainProgram]
    rw [nothing, List.prefix_nil] at composed
    rw [(silent_program sha1 _ acts composed state log ran).2] at queued
    cases queued

def smallManager : DownloadManager := (DownloadManager.new oneBlock 16384).get (by decide)

theorem introduced_iff_one :
    (∀ acts state log, acts.filter mainStatement <+: mainProgram [default] true →
        run (program zeroHash) (Swarm.new (setDiskIo smallManager)) acts = some (state, log) →
        Introduced state) ↔ [(default : PeerIp)] = [] ∨ true = false :=
  introduced_iff zeroHash oneBlock smallManager (Option.some_get _).symm [default] true

/-- One peer: its first event is handled while nobody is registered. -/
theorem first_peer_unintroduced :
    ∃ acts state log, acts.filter mainStatement <+: mainProgram [default] true ∧
      run (program zeroHash) (Swarm.new (setDiskIo smallManager)) acts = some (state, log) ∧
      ¬ Introduced state :=
  unintroduced zeroHash (setDiskIo smallManager) rfl default []

end Introductions

section Farewells

def raisedBy (sender : Sender) (log : List Note) : List PeerEvent :=
  log.filterMap fun
    | .task origin (.raised event) => if origin = sender then some event else none
    | _ => none

def enqueuedBy (sender : Sender) (log : List Note) : List PeerEvent :=
  log.filterMap fun
    | .enqueued delivery => if delivery.origin = sender then some delivery.event else none
    | _ => none

/-- All events of the connection have reached the download channel, and after them the
notice that it is gone. -/
def Farewell (sender : Sender) (log : List Note) : Prop :=
  enqueuedBy sender log = raisedBy sender log ++ [.peerDisconnected]

def afloatAt (swarm : Swarm) (sender : Sender) : List PeerEvent :=
  match swarm.peerManager.links[sender]? with
  | some link => link.afloat
  | none => []

structure Flows (swarm : Swarm) (log : List Note) : Prop where
  orderly : ∀ link ∈ swarm.peerManager.links, Orderly link
  relayed : ∀ sender, raisedBy sender log = enqueuedBy sender log ++ afloatAt swarm sender
  polite : ∀ sender, .peerDisconnected ∉ raisedBy sender log
  logged : ∀ delivery ∈ swarm.inbox.queue, .enqueued delivery ∈ log

theorem raised_by_append (sender : Sender) (first second : List Note) :
    raisedBy sender (first ++ second) = raisedBy sender first ++ raisedBy sender second :=
  List.filterMap_append

theorem enqueued_by_append (sender : Sender) (first second : List Note) :
    enqueuedBy sender (first ++ second) = enqueuedBy sender first ++ enqueuedBy sender second :=
  List.filterMap_append

theorem raised_by_task (sender origin : Sender) (notes : List TaskNote) :
    raisedBy sender (notes.map (.task origin)) =
      if origin = sender then notes.filterMap raisedEvent else [] := by
  unfold raisedBy
  rw [List.filterMap_map]
  split
  · rename_i same
    refine List.filterMap_congr fun note _ => ?_
    cases note <;> simp [raisedEvent, same]
  · rename_i different
    refine List.filterMap_eq_nil_iff.mpr fun note _ => ?_
    cases note <;> simp [different]

theorem enqueued_by_task (sender origin : Sender) (notes : List TaskNote) :
    enqueuedBy sender (notes.map (.task origin)) = [] := by
  unfold enqueuedBy
  rw [List.filterMap_map]
  exact List.filterMap_eq_nil_iff.mpr fun _ _ => rfl

theorem afloat_set_link (swarm : Swarm) (sender other : Sender) (link after : Link)
    (there : swarm.peerManager.links[sender]? = some link) :
    afloatAt (swarm.setLink sender after) other =
      if sender = other then after.afloat else afloatAt swarm other := by
  unfold afloatAt
  rw [get_set_link swarm sender other link after there]
  by_cases same : sender = other
  · rw [if_pos same, if_pos same]
  · rw [if_neg same, if_neg same]

theorem set_link_links (swarm : Swarm) (sender : Sender) (after other : Link)
    (member : other ∈ (swarm.setLink sender after).peerManager.links) :
    other ∈ swarm.peerManager.links ∨ other = after :=
  List.mem_or_eq_of_mem_set member

theorem flows_new (manager : DownloadManager) : Flows (Swarm.new manager) [] := by
  refine ⟨?_, fun _ => rfl, fun _ => List.not_mem_nil, ?_⟩
  · exact fun link member => (List.not_mem_nil member).elim
  · exact fun delivery queued => (List.not_mem_nil queued).elim

theorem flows_added (before : Swarm) (log : List Note) (flows : Flows before log)
    (peerIp : PeerIp) (bitfield : Option Bytes) :
    Flows { before with peerManager := before.peerManager.addPeer peerIp bitfield } log := by
  refine ⟨?_, fun sender => ?_, flows.polite, flows.logged⟩
  · intro link member
    rcases List.mem_append.mp member with old | new
    · exact flows.orderly link old
    · obtain rfl := List.mem_singleton.mp new
      exact orderly_new peerIp bitfield
  · rw [flows.relayed sender]
    congr 1
    unfold afloatAt
    rcases get_added before.peerManager peerIp bitfield sender with same | ⟨absent, new⟩
    · rw [same]
    · rw [absent, new]
      rfl

theorem flows_tasked (before : Swarm) (log : List Note) (flows : Flows before log)
    (sender : Sender) (act : TaskAct) (link after : Link) (notes : List TaskNote)
    (there : before.peerManager.links[sender]? = some link)
    (tasked : Tasked link act after notes) :
    Flows (before.setLink sender after) (log ++ notes.map (.task sender)) := by
  have orderly := flows.orderly link (List.mem_of_getElem? there)
  have carried := tasked_afloat link after act notes tasked orderly
  refine ⟨?_, fun other => ?_, fun other => ?_, ?_⟩
  · intro changed member
    rcases set_link_links before sender after changed member with old | rfl
    · exact flows.orderly changed old
    · exact tasked_orderly link _ act notes tasked orderly
  · rw [raised_by_append, enqueued_by_append, raised_by_task, enqueued_by_task, List.append_nil,
      afloat_set_link before sender other link after there, flows.relayed other]
    by_cases same : sender = other
    · subst same
      have here : afloatAt before sender = link.afloat := by simp [afloatAt, there]
      rw [if_pos rfl, if_pos rfl, here, carried, List.append_assoc]
    · rw [if_neg same, if_neg same, List.append_nil]
  · rw [raised_by_append, List.mem_append, raised_by_task]
    rintro (old | new)
    · exact flows.polite other old
    · split at new
      · obtain ⟨note, member, same⟩ := List.mem_filterMap.mp new
        cases note with
        | serialized => cases same
        | raised event =>
            obtain rfl := Option.some.inj same
            exact tasked_no_disconnect link after act notes tasked member
      · cases new
  · intro delivery queued
    exact List.mem_append_left _ (flows.logged delivery queued)

theorem flows_forwarded (before : Swarm) (log : List Note) (flows : Flows before log)
    (sender : Sender) (link : Link) (event : PeerEvent) (inbox : Channel Delivery 1000)
    (there : before.peerManager.links[sender]? = some link)
    (holding : link.forwarder = .forwarding event)
    (put : inbox.queue = before.inbox.queue ++ [⟨event, link.peerIp, sender⟩]) :
    Flows { before.setLink sender { link with forwarder := .receiving } with inbox := inbox }
      (log ++ [.enqueued ⟨event, link.peerIp, sender⟩]) := by
  have orderly := flows.orderly link (List.mem_of_getElem? there)
  refine ⟨?_, fun other => ?_, fun other => ?_, ?_⟩
  · intro changed member
    rcases set_link_links before sender _ changed member with old | rfl
    · exact flows.orderly changed old
    · exact orderly_between _ ⟨nofun, nofun⟩ orderly.spoken
  · have moved := afloat_set_link before sender other link { link with forwarder := .receiving }
      there
    rw [raised_by_append, enqueued_by_append, flows.relayed other]
    change _ = _ ++ afloatAt (before.setLink sender { link with forwarder := .receiving }) other
    rw [moved]
    by_cases same : sender = other
    · subst same
      simp [afloatAt, there, Link.afloat, Link.unsent, holding, Forwarder.holding, raisedBy,
        enqueuedBy]
    · simp [raisedBy, enqueuedBy, same]
  · rw [raised_by_append, List.mem_append]
    rintro (old | new)
    · exact flows.polite other old
    · simp [raisedBy] at new
  · intro delivery queued
    rw [put] at queued
    rcases List.mem_append.mp queued with old | new
    · exact List.mem_append_left _ (flows.logged delivery old)
    · obtain rfl := List.mem_singleton.mp new
      exact List.mem_append_right log List.mem_cons_self

theorem flows_step (sha1 : Bytes → Hash) (before after : Swarm) (act : Act)
    (notes : List Note) (log : List Note) (live : before.receiverOpen = true)
    (flows : Flows before log) (stepped : Stepped sha1 before act after notes) :
    Flows after (log ++ notes) := by
  cases stepped with
  | added peerIp bitfield =>
      rw [List.append_nil]
      exact flows_added before log flows peerIp bitfield
  | tasked sender act link changed said there tasked =>
      exact flows_tasked before log flows sender act link changed said there tasked
  | forwarded sender link event inbox there holding _ put =>
      exact flows_forwarded before log flows sender link event inbox there holding put
  | abandoned sender link event there holding shut =>
      rw [live] at shut
      cases shut
  | handled choice delivery rest ready taken =>
      have nothing_raised : ∀ sender, raisedBy sender (log ++ [.handled delivery]) =
          raisedBy sender log := by
        intro sender
        rw [raised_by_append]
        exact List.append_nil _
      have nothing_put : ∀ sender, enqueuedBy sender (log ++ [.handled delivery]) =
          enqueuedBy sender log := by
        intro sender
        rw [enqueued_by_append]
        exact List.append_nil _
      refine ⟨flows.orderly, fun sender => ?_, fun sender => ?_, ?_⟩
      · rw [nothing_raised, nothing_put]
        exact flows.relayed sender
      · rw [nothing_raised]
        exact flows.polite sender
      · intro other queued
        have older : other ∈ before.inbox.queue := by
          rw [taken]
          exact List.mem_cons_of_mem _ queued
        exact List.mem_append_left _ (flows.logged other older)
  | sent sender command rest link commands busy there =>
      rw [List.append_nil]
      refine ⟨?_, fun other => ?_, flows.polite, flows.logged⟩
      · intro changed member
        rcases set_link_links before sender _ changed member with old | rfl
        · exact flows.orderly changed old
        · have orderly := flows.orderly link (List.mem_of_getElem? there)
          exact ⟨orderly.unconnected, orderly.spoken, orderly.relayed⟩
      · have moved := afloat_set_link before sender other link { link with commands := commands }
          there
        rw [flows.relayed other]
        congr 1
        refine Eq.trans ?_ moved.symm
        split
        · rename_i same
          subst same
          simp [afloatAt, there, Link.afloat, Link.unsent]
        · rfl
  | registered | started | closed | refused | checked =>
      rw [List.append_nil]
      exact ⟨flows.orderly, flows.relayed, flows.polite, flows.logged⟩

theorem receiver_stays_shut (sha1 : Bytes → Hash) (before after : Swarm) (act : Act)
    (notes : List Note) (stepped : Stepped sha1 before act after notes)
    (live : after.receiverOpen = true) : before.receiverOpen = true := by
  cases stepped with
  | closed => cases live
  | added | registered | started | tasked | forwarded | abandoned | handled | sent | refused
  | checked => exact live

theorem run_flows (sha1 : Bytes → Hash) (manager : DownloadManager) (acts : List Act)
    (finish : Swarm) (log : List Note)
    (ran : run (program sha1) (Swarm.new manager) acts = some (finish, log))
    (live : finish.receiverOpen = true) : Flows finish log := by
  refine run_invariant (program sha1)
    (fun swarm log => swarm.receiverOpen = true → Flows swarm log) ?_ (Swarm.new manager) finish
    acts log (fun _ => flows_new manager) ran live
  intro before log act after notes flows ran live
  have stepped := step_stepped sha1 before after act notes ran
  have was_live := receiver_stays_shut sha1 before after act notes stepped live
  exact flows_step sha1 before after act notes log was_live (flows was_live) stepped

theorem registration_step (sha1 : Bytes → Hash) (before after : Swarm) (act : Act)
    (notes : List Note) (log : List Note) (flows : Flows before log) (peerIp : PeerIp)
    (stepped : Stepped sha1 before act after notes)
    (there : (before.manager.peers.lookup peerIp).isSome = true) :
    (after.manager.peers.lookup peerIp).isSome = true := by
  cases stepped with
  | registered newcomer sender =>
      by_cases same : peerIp = newcomer
      · subst same
        exact congrArg Option.isSome (AList.lookup_insert before.manager.peers)
      · exact (congrArg Option.isSome (AList.lookup_insert_ne same)).trans there
  | handled choice delivery rest ready taken =>
      have queued : delivery ∈ before.inbox.queue := by
        rw [taken]
        exact List.mem_cons_self
      have kept := peers_after_sender before.manager.peers delivery.event delivery.peerIp peerIp ?_
      · rw [← handle_event_peers sha1 choice] at kept
        have both := congrArg Option.isSome kept
        rwa [Option.isSome_map, Option.isSome_map, there] at both
      · intro disconnects
        apply (flows.polite delivery.origin _).elim
        rw [flows.relayed delivery.origin]
        refine List.mem_append_left _ (List.mem_filterMap.mpr
          ⟨.enqueued delivery, flows.logged delivery queued, ?_⟩)
        simp [disconnects]
  | added | started | closed | tasked | forwarded | abandoned | sent | refused | checked =>
      exact there

theorem registration_kept (sha1 : Bytes → Hash) (manager : DownloadManager)
    (past later : List Act) (middle finish : Swarm) (before after : List Note)
    (first : run (program sha1) (Swarm.new manager) past = some (middle, before))
    (second : run (program sha1) middle later = some (finish, after))
    (live : finish.receiverOpen = true) (peerIp : PeerIp)
    (there : (middle.manager.peers.lookup peerIp).isSome = true) :
    (finish.manager.peers.lookup peerIp).isSome = true := by
  refine run_history (program sha1) middle later
    (fun _ swarm _ => swarm.receiverOpen = true →
      (swarm.manager.peers.lookup peerIp).isSome = true)
    (fun _ => there) ?_ later (List.prefix_refl later) finish after second live
  intro more act state log next notes _ ran held moved live
  have stepped := step_stepped sha1 state next act notes moved
  have was_live := receiver_stays_shut sha1 state next act notes stepped live
  have whole := (run_append_iff _ _ state past more _).mpr ⟨middle, before, log, first, ran, rfl⟩
  exact registration_step sha1 state next act notes _
    (run_flows sha1 manager (past ++ more) state _ whole was_live) peerIp stepped (held was_live)

/-- When both tasks of a connection have ended, all its events are on the download channel
and no notice of its end is, so whoever was registered still is. -/
theorem no_farewell (sha1 : Bytes → Hash) (manager : DownloadManager) (acts : List Act)
    (state : Swarm) (log : List Note)
    (ran : run (program sha1) (Swarm.new manager) acts = some (state, log))
    (live : state.receiverOpen = true) (sender : Sender) (link : Link)
    (there : state.peerManager.links[sender]? = some link) (finished : Finished link) :
    enqueuedBy sender log = raisedBy sender log ∧ ¬ Farewell sender log ∧
      ∀ past middle before peerIp, past <+: acts →
        run (program sha1) (Swarm.new manager) past = some (middle, before) →
        (middle.manager.peers.lookup peerIp).isSome = true →
        (state.manager.peers.lookup peerIp).isSome = true := by
  have flows := run_flows sha1 manager acts state log ran live
  have landed : enqueuedBy sender log = raisedBy sender log := by
    have ashore := orderly_finished_afloat link
      (flows.orderly link (List.mem_of_getElem? there)) finished.1
    have relayed := flows.relayed sender
    simp only [afloatAt, there, ashore, List.append_nil] at relayed
    exact relayed.symm
  refine ⟨landed, ?_, ?_⟩
  · intro farewell
    rw [Farewell, landed] at farewell
    simpa using congrArg List.length farewell
  · rintro past middle before peerIp ⟨later, rfl⟩ first there
    obtain ⟨same, early, after, again, second, rfl⟩ := (run_append_iff _ _ _ _ _ _).mp ran
    obtain ⟨rfl, rfl⟩ := Prod.mk.inj (Option.some.inj (first.symm.trans again))
    exact registration_kept sha1 manager past later middle state before after first second live
      peerIp there

def brokenOff : List Act :=
  [.addPeer default none, .register default, .start, .task 0 .connected, .task 0 (.read .choke),
    .task 0 .emit, .task 0 (.fails .io), .task 0 .receive, .forward 0, .task 0 .drained]

theorem no_farewell_broken_off :
    ∃ state log, run (program zeroHash) (Swarm.new smallManager) brokenOff = some (state, log) ∧
      enqueuedBy 0 log = raisedBy 0 log ∧ ¬ Farewell 0 log ∧
      ∀ past middle before peerIp, past <+: brokenOff →
        run (program zeroHash) (Swarm.new smallManager) past = some (middle, before) →
        (middle.manager.peers.lookup peerIp).isSome = true →
        (state.manager.peers.lookup peerIp).isSome = true := by
  refine ⟨_, _, rfl, no_farewell zeroHash smallManager brokenOff _ _ rfl rfl 0 _ rfl
    ⟨rfl, fun session there => ?_⟩⟩
  obtain rfl := Option.some.inj there
  rfl

/-- The loop has handled everything, and the lost peer is still registered. -/
theorem broken_off_not_noticed :
    ∃ state log link session,
      run (program zeroHash) (Swarm.new smallManager) (brokenOff ++ [.handle default, .check]) =
        some (state, log) ∧
      state.peerManager.links[0]? = some link ∧ link.session = some session ∧ Finished link ∧
      state.inbox.queue = [] ∧ state.receiverOpen = true ∧ ¬ Farewell 0 log ∧
      (state.manager.peers.lookup default).isSome = true := by
  refine ⟨_, _, _, _, rfl, rfl, rfl, ⟨rfl, fun session there => ?_⟩, rfl, rfl, ?_, rfl⟩
  · obtain rfl := Option.some.inj there
    rfl
  · unfold Farewell
    decide

end Farewells

end MotteSeed.PeerTracking
