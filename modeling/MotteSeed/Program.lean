import MotteSeed.PeerTasks
import MotteSeed.Availability

/-! The whole program in motion: the peer manager with the tasks it has spawned, the
download channel they share, and the loop of the download manager, which handles one
event at a time and sends its commands one by one. Any enabled act may come next. -/
namespace MotteSeed.Program
open Toolkit Toolkit.HashTable Toolkit.Runs Toolkit.Channels PeerWire PeerConnection TorrentMeta
  PieceStore Downloads Availability PeerTasks

/-- One item of the download channel. The code sends the event and the address; `origin`
is kept beside them to say which connection an item comes from, and no step reads it. -/
structure Delivery where
  event : PeerEvent
  peerIp : PeerIp
  origin : Sender
  deriving DecidableEq

/-- Where the loop of the download manager stands: not running, at `recv`, or with commands
of the event in hand still to be sent. -/
inductive Loop where
  | stopped
  | waiting
  | sending (commands : List (Sender × ManagerCommand))

structure Swarm where
  peerManager : PeerManager
  inbox : Channel Delivery 1000
  receiverOpen : Bool
  manager : DownloadManager
  loop : Loop

def Swarm.new (manager : DownloadManager) : Swarm :=
  { peerManager := .new, inbox := .new, receiverOpen := true, manager, loop := .stopped }

/-- `register` hands the sender that the peer manager keeps to the download manager;
`closeReceiver` drops the download manager. -/
inductive Act where
  | addPeer (peerIp : PeerIp) (bitfield : Option Bytes)
  | register (peerIp : PeerIp)
  | start
  | closeReceiver
  | task (sender : Sender) (act : TaskAct)
  | forward (sender : Sender)
  | handle (choice : Choice)
  | send
  | check

inductive Note where
  | task (sender : Sender) (note : TaskNote)
  | enqueued (delivery : Delivery)
  | handled (delivery : Delivery)
  deriving DecidableEq

def commandOf : Action → Option (Sender × ManagerCommand)
  | .sent sender command _ => some (sender, command)
  | .wrotePiece _ _ _ => none

def Swarm.held (swarm : Swarm) (sender : Sender) : Bool :=
  (values swarm.peerManager.peerSenders).contains sender ||
    (swarm.receiverOpen && (values swarm.manager.peers).any fun peer => peer.1 == sender)

def Swarm.setLink (swarm : Swarm) (sender : Sender) (link : Link) : Swarm :=
  { swarm with peerManager := { swarm.peerManager with
      links := swarm.peerManager.links.set sender link } }

def step (sha1 : Bytes → Hash) (swarm : Swarm) : Act → Option (Swarm × List Note)
  | .addPeer peerIp bitfield =>
      some ({ swarm with peerManager := swarm.peerManager.addPeer peerIp bitfield }, [])
  | .register peerIp =>
      match swarm.loop, swarm.peerManager.getPeerSender peerIp with
      | .stopped, some sender =>
          if swarm.receiverOpen then
            some ({ swarm with manager := addPeer swarm.manager peerIp sender }, [])
          else none
      | _, _ => none
  | .start =>
      match swarm.loop with
      | .stopped => if swarm.receiverOpen then some ({ swarm with loop := .waiting }, []) else none
      | .waiting | .sending _ => none
  | .closeReceiver =>
      match swarm.loop with
      | .stopped => some ({ swarm with receiverOpen := false }, [])
      | .waiting | .sending _ => none
  | .task sender act =>
      match swarm.peerManager.links[sender]? with
      | some link =>
          (taskStep (swarm.held sender) link act).map fun stepped =>
            (swarm.setLink sender stepped.1, stepped.2.map (.task sender))
      | none => none
  | .forward sender =>
      match swarm.peerManager.links[sender]? with
      | some link =>
          match link.forwarder with
          | .forwarding event =>
              if swarm.receiverOpen then
                (swarm.inbox.send ⟨event, link.peerIp, sender⟩).map fun inbox =>
                  ({ swarm.setLink sender { link with forwarder := .receiving } with
                      inbox := inbox },
                    [.enqueued ⟨event, link.peerIp, sender⟩])
              else some (swarm.setLink sender { link with forwarder := .finished }, [])
          | .connecting | .receiving | .finished => none
      | none => none
  | .handle choice =>
      match swarm.loop with
      | .waiting =>
          swarm.inbox.recv.map fun received =>
            let handled := handleEvent sha1 choice swarm.manager received.1.event received.1.peerIp
            ({ swarm with
                inbox := received.2
                manager := handled.1
                loop := .sending (handled.2.filterMap commandOf) }, [.handled received.1])
      | .stopped | .sending _ => none
  | .send =>
      match swarm.loop with
      | .sending ((sender, command) :: rest) =>
          match swarm.peerManager.links[sender]? with
          | some link =>
              if link.listening then
                (link.commands.send command).map fun commands =>
                  ({ swarm.setLink sender { link with commands := commands } with
                      loop := .sending rest }, [])
              else some ({ swarm with loop := .sending rest }, [])
          | none => none
      | .stopped | .waiting | .sending [] => none
  | .check =>
      match swarm.loop with
      | .sending [] =>
          some ({ swarm with
            loop := if swarm.manager.pieceManager.isDownloadComplete then .stopped else .waiting },
            [])
      | .stopped | .waiting | .sending (_ :: _) => none

def program (sha1 : Bytes → Hash) : Machine Swarm Act Note := ⟨step sha1⟩

theorem get_added (manager : PeerManager) (peerIp : PeerIp) (bitfield : Option Bytes)
    (sender : Sender) :
    (manager.addPeer peerIp bitfield).links[sender]? = manager.links[sender]? ∨
      (manager.links[sender]? = none ∧
        (manager.addPeer peerIp bitfield).links[sender]? = some (Link.new peerIp bitfield)) := by
  simp only [PeerManager.addPeer]
  rcases Nat.lt_trichotomy sender manager.links.length with inside | rfl | beyond
  · exact Or.inl (List.getElem?_append_left inside)
  · exact Or.inr ⟨List.getElem?_eq_none (Nat.le_refl _), List.getElem?_concat_length⟩
  · left
    rw [List.getElem?_eq_none (Nat.le_of_lt beyond), List.getElem?_eq_none]
    rw [List.length_append, List.length_singleton]
    exact beyond

theorem get_set_link (swarm : Swarm) (sender other : Sender) (link after : Link)
    (there : swarm.peerManager.links[sender]? = some link) :
    (swarm.setLink sender after).peerManager.links[other]? =
      if sender = other then some after else swarm.peerManager.links[other]? := by
  have inside := (List.getElem?_eq_some_iff.mp there).1
  by_cases same : sender = other
  · subst same
    rw [if_pos rfl]
    exact List.getElem?_set_self inside
  · rw [if_neg same]
    exact List.getElem?_set_ne same

inductive Stepped (sha1 : Bytes → Hash) (swarm : Swarm) : Act → Swarm → List Note → Prop where
  | added (peerIp : PeerIp) (bitfield : Option Bytes) :
      Stepped sha1 swarm (.addPeer peerIp bitfield)
        { swarm with peerManager := swarm.peerManager.addPeer peerIp bitfield } []
  | registered (peerIp : PeerIp) (sender : Sender) (idle : swarm.loop = .stopped)
      (live : swarm.receiverOpen = true)
      (known : swarm.peerManager.getPeerSender peerIp = some sender) :
      Stepped sha1 swarm (.register peerIp)
        { swarm with manager := addPeer swarm.manager peerIp sender } []
  | started (idle : swarm.loop = .stopped) (live : swarm.receiverOpen = true) :
      Stepped sha1 swarm .start { swarm with loop := .waiting } []
  | closed (idle : swarm.loop = .stopped) :
      Stepped sha1 swarm .closeReceiver { swarm with receiverOpen := false } []
  | tasked (sender : Sender) (act : TaskAct) (link after : Link) (notes : List TaskNote)
      (there : swarm.peerManager.links[sender]? = some link)
      (tasked : Tasked link act after notes) :
      Stepped sha1 swarm (.task sender act) (swarm.setLink sender after) (notes.map (.task sender))
  | forwarded (sender : Sender) (link : Link) (event : PeerEvent)
      (inbox : Channel Delivery 1000) (there : swarm.peerManager.links[sender]? = some link)
      (holding : link.forwarder = .forwarding event) (live : swarm.receiverOpen = true)
      (put : inbox.queue = swarm.inbox.queue ++ [⟨event, link.peerIp, sender⟩]) :
      Stepped sha1 swarm (.forward sender)
        { swarm.setLink sender { link with forwarder := .receiving } with inbox := inbox }
        [.enqueued ⟨event, link.peerIp, sender⟩]
  | abandoned (sender : Sender) (link : Link) (event : PeerEvent)
      (there : swarm.peerManager.links[sender]? = some link)
      (holding : link.forwarder = .forwarding event) (shut : swarm.receiverOpen = false) :
      Stepped sha1 swarm (.forward sender)
        (swarm.setLink sender { link with forwarder := .finished }) []
  | handled (choice : Choice) (delivery : Delivery) (rest : Channel Delivery 1000)
      (ready : swarm.loop = .waiting) (taken : swarm.inbox.queue = delivery :: rest.queue) :
      Stepped sha1 swarm (.handle choice)
        { swarm with
          inbox := rest
          manager :=
            (handleEvent sha1 choice swarm.manager delivery.event delivery.peerIp).1
          loop := .sending ((handleEvent sha1 choice swarm.manager delivery.event
            delivery.peerIp).2.filterMap commandOf) } [.handled delivery]
  | sent (sender : Sender) (command : ManagerCommand)
      (rest : List (Sender × ManagerCommand)) (link : Link)
      (commands : Channel ManagerCommand 100)
      (busy : swarm.loop = .sending ((sender, command) :: rest))
      (there : swarm.peerManager.links[sender]? = some link) (listens : link.listening = true)
      (put : commands.queue = link.commands.queue ++ [command]) :
      Stepped sha1 swarm .send
        { swarm.setLink sender { link with commands := commands } with loop := .sending rest } []
  | refused (sender : Sender) (command : ManagerCommand)
      (rest : List (Sender × ManagerCommand)) (link : Link)
      (busy : swarm.loop = .sending ((sender, command) :: rest))
      (there : swarm.peerManager.links[sender]? = some link) (deaf : link.listening = false) :
      Stepped sha1 swarm .send { swarm with loop := .sending rest } []
  | checked (done : swarm.loop = .sending []) :
      Stepped sha1 swarm .check
        { swarm with
          loop := if swarm.manager.pieceManager.isDownloadComplete then .stopped else .waiting } []

theorem forward_stepped (sha1 : Bytes → Hash) (before after : Swarm) (sender : Sender)
    (notes : List Note) (stepped : step sha1 before (.forward sender) = some (after, notes)) :
    Stepped sha1 before (.forward sender) after notes := by
  simp only [step] at stepped
  split at stepped
  · rename_i link there
    split at stepped
    · rename_i event holding
      split at stepped
      · rename_i live
        obtain ⟨inbox, sent, same⟩ := Option.map_eq_some_iff.mp stepped
        obtain ⟨rfl, rfl⟩ := Prod.mk.inj same
        exact .forwarded sender link event inbox there holding live
          ((send_some_iff _ inbox _).mp sent)
      · rename_i shut
        obtain ⟨rfl, rfl⟩ := Prod.mk.inj (Option.some.inj stepped)
        exact .abandoned sender link event there holding (by simpa using shut)
    all_goals cases stepped
  · cases stepped

theorem send_stepped (sha1 : Bytes → Hash) (before after : Swarm) (notes : List Note)
    (stepped : step sha1 before .send = some (after, notes)) :
    Stepped sha1 before .send after notes := by
  simp only [step] at stepped
  split at stepped
  · rename_i sender command rest busy
    split at stepped
    · rename_i link there
      split at stepped
      · rename_i listens
        obtain ⟨commands, sent, same⟩ := Option.map_eq_some_iff.mp stepped
        obtain ⟨rfl, rfl⟩ := Prod.mk.inj same
        exact .sent sender command rest link commands busy there listens
          ((send_some_iff _ commands command).mp sent)
      · rename_i deaf
        obtain ⟨rfl, rfl⟩ := Prod.mk.inj (Option.some.inj stepped)
        exact .refused sender command rest link busy there (by simpa using deaf)
    · cases stepped
  all_goals cases stepped

theorem step_stepped (sha1 : Bytes → Hash) (before after : Swarm) (act : Act)
    (notes : List Note) (stepped : step sha1 before act = some (after, notes)) :
    Stepped sha1 before act after notes := by
  cases act with
  | addPeer peerIp bitfield =>
      obtain ⟨rfl, rfl⟩ := Prod.mk.inj (Option.some.inj stepped)
      exact .added peerIp bitfield
  | register peerIp =>
      simp only [step] at stepped
      split at stepped
      · rename_i sender idle known
        split at stepped
        · rename_i live
          obtain ⟨rfl, rfl⟩ := Prod.mk.inj (Option.some.inj stepped)
          exact .registered peerIp sender idle live known
        · cases stepped
      · cases stepped
  | start =>
      simp only [step] at stepped
      split at stepped
      · rename_i idle
        split at stepped
        · rename_i live
          obtain ⟨rfl, rfl⟩ := Prod.mk.inj (Option.some.inj stepped)
          exact .started idle live
        · cases stepped
      · cases stepped
      · cases stepped
  | closeReceiver =>
      simp only [step] at stepped
      split at stepped
      · rename_i idle
        obtain ⟨rfl, rfl⟩ := Prod.mk.inj (Option.some.inj stepped)
        exact .closed idle
      · cases stepped
      · cases stepped
  | task sender act =>
      simp only [step] at stepped
      split at stepped
      · rename_i link there
        obtain ⟨⟨changed, said⟩, ran, same⟩ := Option.map_eq_some_iff.mp stepped
        obtain ⟨rfl, rfl⟩ := Prod.mk.inj same
        exact .tasked sender act link changed said there
          (task_step_tasked _ link changed act said ran)
      · cases stepped
  | forward sender => exact forward_stepped sha1 before after sender notes stepped
  | handle choice =>
      simp only [step] at stepped
      split at stepped
      · rename_i ready
        obtain ⟨⟨delivery, rest⟩, received, same⟩ := Option.map_eq_some_iff.mp stepped
        obtain ⟨rfl, rfl⟩ := Prod.mk.inj same
        exact .handled choice delivery rest ready ((recv_some_iff _ rest delivery).mp received)
      · cases stepped
      · cases stepped
  | send => exact send_stepped sha1 before after notes stepped
  | check =>
      simp only [step] at stepped
      split at stepped
      · rename_i done
        obtain ⟨rfl, rfl⟩ := Prod.mk.inj (Option.some.inj stepped)
        exact .checked done
      all_goals cases stepped

/-- The download manager in the program does what it does on its own. -/
theorem program_manager_reaches (sha1 : Bytes → Hash) (start : Swarm) (acts : List Act)
    (finish : Swarm) (log : List Note) (ran : run (program sha1) start acts = some (finish, log)) :
    Reaches (downloads sha1) start.manager finish.manager := by
  refine run_state_invariant (program sha1)
    (fun swarm => Reaches (downloads sha1) start.manager swarm.manager) ?_ start finish acts log
    (reaches_refl _ _) ran
  intro before act after notes reached stepped
  cases step_stepped sha1 before after act notes stepped with
  | registered peerIp sender =>
      exact reaches_step _ _ _ _ (.addPeer peerIp sender) [] reached rfl
  | handled choice delivery rest =>
      exact reaches_step _ _ _ _ (.event delivery.event delivery.peerIp choice) _ reached rfl
  | added | started | closed | tasked | forwarded | abandoned | sent | refused | checked =>
      exact reached

section Addresses

def Swarm.addresses (swarm : Swarm) : List PeerIp := swarm.peerManager.links.map Link.peerIp

theorem tasked_peer_ip (link after : Link) (act : TaskAct) (notes : List TaskNote)
    (tasked : Tasked link act after notes) : after.peerIp = link.peerIp := by
  cases tasked <;> rfl

theorem set_link_addresses (swarm : Swarm) (sender : Sender) (link after : Link)
    (there : swarm.peerManager.links[sender]? = some link) (same : after.peerIp = link.peerIp) :
    (swarm.setLink sender after).addresses = swarm.addresses := by
  have here : (swarm.peerManager.links.map Link.peerIp)[sender]? = some link.peerIp := by
    rw [List.getElem?_map, there, Option.map_some]
  obtain ⟨inside, value⟩ := List.getElem?_eq_some_iff.mp here
  simp only [Swarm.addresses, Swarm.setLink, List.map_set, same, ← value, List.set_getElem_self]

theorem stepped_addresses (sha1 : Bytes → Hash) (before after : Swarm) (act : Act)
    (notes : List Note) (stepped : Stepped sha1 before act after notes) :
    (∃ peerIp bitfield, act = .addPeer peerIp bitfield ∧
        after = { before with peerManager := before.peerManager.addPeer peerIp bitfield }) ∨
      (after.addresses = before.addresses ∧
        after.peerManager.peerSenders = before.peerManager.peerSenders) := by
  cases stepped with
  | added peerIp bitfield => exact Or.inl ⟨peerIp, bitfield, rfl, rfl⟩
  | tasked sender _ link changed _ there tasked =>
      exact Or.inr ⟨set_link_addresses before sender link changed there
        (tasked_peer_ip link changed _ _ tasked), rfl⟩
  | forwarded sender link _ _ there | abandoned sender link _ there
  | sent sender _ _ link _ _ there =>
      exact Or.inr ⟨set_link_addresses before sender link _ there rfl, rfl⟩
  | registered | started | closed | handled | refused | checked => exact Or.inr ⟨rfl, rfl⟩

structure Tabled (senders : HashMap PeerIp Sender) (addresses : List PeerIp) : Prop where
  known : ∀ peerIp ∈ addresses, (senders.lookup peerIp).isSome = true
  latest : ∀ peerIp sender, senders.lookup peerIp = some sender →
    addresses[sender]? = some peerIp ∧
      ∀ later : Nat, addresses[later]? = some peerIp → later ≤ sender

theorem tabled_add (senders : HashMap PeerIp Sender) (addresses : List PeerIp) (peerIp : PeerIp)
    (tabled : Tabled senders addresses) :
    Tabled (senders.insert peerIp addresses.length) (addresses ++ [peerIp]) := by
  constructor
  · intro other member
    by_cases same : other = peerIp
    · rw [same, AList.lookup_insert]
      rfl
    · rw [AList.lookup_insert_ne same]
      rcases List.mem_append.mp member with old | new
      · exact tabled.known other old
      · exact (same (List.mem_singleton.mp new)).elim
  · intro other sender found
    by_cases same : other = peerIp
    · rw [same, AList.lookup_insert] at found
      obtain rfl := Option.some.inj found
      refine ⟨by simp [same], fun later there => ?_⟩
      have inside := (List.getElem?_eq_some_iff.mp there).1
      rw [List.length_append, List.length_singleton] at inside
      exact Nat.le_of_lt_succ inside
    · rw [AList.lookup_insert_ne same] at found
      obtain ⟨here, last⟩ := tabled.latest other sender found
      refine ⟨?_, fun later there => last later ?_⟩
      · rw [List.getElem?_append_left (List.getElem?_eq_some_iff.mp here).1, here]
      · by_cases old : later < addresses.length
        · rwa [List.getElem?_append_left old] at there
        · obtain rfl : later = addresses.length := by
            have inside := (List.getElem?_eq_some_iff.mp there).1
            rw [List.length_append, List.length_singleton] at inside
            omega
          simp only [List.getElem?_concat_length, Option.some.injEq] at there
          exact (same there.symm).elim

/-- Every registered address comes with a sender to a task of that address. -/
def Registered (swarm : Swarm) : Prop :=
  ∀ peerIp sender record, swarm.manager.peers.lookup peerIp = some (sender, record) →
    swarm.addresses[sender]? = some peerIp

theorem handled_sender (sha1 : Bytes → Hash) (choice : Choice) (manager : DownloadManager)
    (event : PeerEvent) (peerIp other : PeerIp) (sender : Sender) (record : Option Bytes)
    (found : (handleEvent sha1 choice manager event peerIp).1.peers.lookup other =
      some (sender, record)) :
    ∃ old, manager.peers.lookup other = some (sender, old) := by
  rw [handle_event_peers] at found
  have kept := peers_after_sender manager.peers event peerIp other ?_
  · rw [found, Option.map_some] at kept
    obtain ⟨⟨_, old⟩, there, rfl⟩ := Option.map_eq_some_iff.mp kept.symm
    exact ⟨old, there⟩
  · rintro rfl rfl
    rw [peers_after_disconnect, AList.lookup_erase] at found
    cases found

theorem tabled_step (sha1 : Bytes → Hash) (before after : Swarm) (act : Act)
    (notes : List Note) (stepped : Stepped sha1 before act after notes)
    (tabled : Tabled before.peerManager.peerSenders before.addresses) :
    Tabled after.peerManager.peerSenders after.addresses := by
  rcases stepped_addresses sha1 before after act notes stepped with
    ⟨peerIp, bitfield, -, rfl⟩ | ⟨same, table⟩
  · have added := tabled_add _ _ peerIp tabled
    simpa [Swarm.addresses, PeerManager.addPeer, Link.new] using added
  · rw [same, table]
    exact tabled

theorem run_tabled (sha1 : Bytes → Hash) (manager : DownloadManager) (acts : List Act)
    (finish : Swarm) (log : List Note)
    (ran : run (program sha1) (Swarm.new manager) acts = some (finish, log)) :
    Tabled finish.peerManager.peerSenders finish.addresses := by
  refine run_state_invariant (program sha1)
    (fun swarm => Tabled swarm.peerManager.peerSenders swarm.addresses)
    (fun before act after notes tabled stepped =>
      tabled_step sha1 before after act notes (step_stepped sha1 before after act notes stepped)
        tabled)
    (Swarm.new manager) finish acts log ⟨?_, ?_⟩ ran
  · intro peerIp member
    cases member
  · intro peerIp sender found
    cases found

theorem addresses_kept (sha1 : Bytes → Hash) (before after : Swarm) (act : Act)
    (notes : List Note) (stepped : Stepped sha1 before act after notes) (sender : Sender)
    (peerIp : PeerIp) (here : before.addresses[sender]? = some peerIp) :
    after.addresses[sender]? = some peerIp := by
  rcases stepped_addresses sha1 before after act notes stepped with
    ⟨other, bitfield, -, rfl⟩ | ⟨same, -⟩
  · have inside := (List.getElem?_eq_some_iff.mp here).1
    have grown : (before.addresses ++ [other])[sender]? = some peerIp := by
      rw [List.getElem?_append_left inside, here]
    simpa [Swarm.addresses, PeerManager.addPeer, Link.new] using grown
  · rw [same, here]

theorem registered_step (sha1 : Bytes → Hash) (before after : Swarm) (act : Act)
    (notes : List Note) (stepped : Stepped sha1 before act after notes)
    (tabled : Tabled before.peerManager.peerSenders before.addresses)
    (registered : Registered before) : Registered after := by
  intro peerIp sender record found
  apply addresses_kept sha1 before after act notes stepped
  cases stepped with
  | registered newcomer newSender idle live known =>
      by_cases same : peerIp = newcomer
      · subst same
        have entry : (addPeer before.manager peerIp newSender).peers.lookup peerIp =
            some (newSender, none) := AList.lookup_insert _
        obtain ⟨rfl, -⟩ := Prod.mk.inj (Option.some.inj (entry.symm.trans found))
        exact (tabled.latest peerIp newSender known).1
      · exact registered peerIp sender record ((AList.lookup_insert_ne same).symm.trans found)
  | handled choice delivery rest =>
      obtain ⟨old, there⟩ := handled_sender sha1 choice before.manager delivery.event
        delivery.peerIp peerIp sender record found
      exact registered peerIp sender old there
  | added | started | closed | tasked | forwarded | abandoned | sent | refused | checked =>
      exact registered peerIp sender record found

theorem run_registered (sha1 : Bytes → Hash) (manager : DownloadManager)
    (unregistered : manager.peers = ∅) (acts : List Act) (finish : Swarm) (log : List Note)
    (ran : run (program sha1) (Swarm.new manager) acts = some (finish, log)) :
    Registered finish := by
  refine run_history (program sha1) (Swarm.new manager) acts (fun _ swarm _ => Registered swarm)
    ?_ ?_ acts (List.prefix_refl acts) finish log ran
  · intro peerIp sender record found
    rw [show (Swarm.new manager).manager.peers = ∅ from unregistered] at found
    cases found
  · intro past act before _ after notes _ reached registered stepped
    exact registered_step sha1 before after act notes
      (step_stepped sha1 before after act notes stepped)
      (run_tabled sha1 manager past before _ reached) registered

end Addresses

end MotteSeed.Program
