import MotteSeed.PieceStates

/-! The request marks of the piece manager: which blocks are marked, when a block is
asked for again, and whether a mark is backed by a request that its peer can still
answer. Marks are set when a block is asked for and go only with its data. -/
namespace MotteSeed.Requests
open Toolkit Toolkit.HashTable Toolkit.Runs PeerWire PeerConnection TorrentMeta PieceStore
  PieceShape PieceInvariant Downloads DownloadSafety Availability PieceStates

def Requested (manager : DownloadManager) (index : UInt32) (offset : Nat) (block : Block)
    (peerIp : PeerIp) : Prop :=
  ∃ piece now, manager.pieceManager.pieces.lookup index = some piece ∧
    piece.blocks.lookup offset = some block ∧ block.state = .requested peerIp now

section Marks

variable (sha1 : Bytes → Hash)

theorem receive_block_requested (piece : Piece) (sound : Sound sha1 piece) (begin key : Nat)
    (data : Bytes) (block : Block) (peerIp : PeerIp) (now : Nat)
    (found : (piece.receiveBlock sha1 begin data).1.blocks.lookup key = some block)
    (marked : block.state = .requested peerIp now) : piece.blocks.lookup key = some block := by
  have stored : (withData piece begin data).blocks.lookup key = some block →
      piece.blocks.lookup key = some block := by
    intro there
    rcases with_data_lookup piece begin key data block there with old | ⟨-, received, -⟩
    · exact old
    · rw [received] at marked
      cases marked
  generalize after : (piece.receiveBlock sha1 begin data).1 = taken at found
  have delivered := receive_block_delivered sha1 piece sound begin data
  rw [after] at delivered
  cases delivered with
  | unknown => exact found
  | partly | verified => exact stored found
  | rejected =>
      rw [lookup_map_entries] at found
      obtain ⟨old, -, rfl⟩ := Option.map_eq_some_iff.mp found
      cases marked

/-- What a call does to the marks: only an unchoke that finds something to ask for sets
one, and only such a call asks. -/
inductive Marks (manager : DownloadManager) : Call → DownloadManager → List Action → Prop where
  | kept (call : Call) (after : DownloadManager) (actions : List Action)
      (older : ∀ index offset block peerIp, Requested after index offset block peerIp →
        Requested manager index offset block peerIp)
      (silent : ∀ sender index begin length delivered,
        .sent sender (.requestBlock index begin length) delivered ∉ actions) :
      Marks manager call after actions
  | asked (peerIp : PeerIp) (choice : Choice) (index : UInt32) (piece : Piece) (offset : Nat)
      (block : Block) (found : manager.pieceManager.pieces.lookup index = some piece)
      (there : piece.blocks.lookup offset = some block)
      (next : manager.pieceManager.getNextPieceToDownload
        (getPeerAvailablePieces manager peerIp) = some index)
      (picked : manager.pieceManager.getNextBlockForPiece choice.blockOrder index =
        some (offset, block.length)) :
      Marks manager (.event .peerUnchoked peerIp choice)
        (withPiece manager index fun piece => piece.requestFromPeer offset peerIp choice.now)
        (sendToPeer choice
          (withPiece manager index fun piece => piece.requestFromPeer offset peerIp choice.now)
          peerIp (.requestBlock index (UInt32.ofNat offset) block.length))

theorem asked_requested (manager : DownloadManager) (index : UInt32) (piece : Piece)
    (offset : Nat) (block : Block) (peerIp : PeerIp) (now : Nat)
    (found : manager.pieceManager.pieces.lookup index = some piece)
    (there : piece.blocks.lookup offset = some block) (key : UInt32) (place : Nat)
    (marked : Block) (owner : PeerIp)
    (holds : Requested (withPiece manager index fun piece =>
      piece.requestFromPeer offset peerIp now) key place marked owner) :
    Requested manager key place marked owner ∨
      (key = index ∧ place = offset ∧ owner = peerIp ∧ marked.length = block.length) := by
  obtain ⟨changed, instant, present, here, state⟩ := holds
  rcases lookup_modify_some _ _ _ _ _ present with ⟨rfl, old, held, rfl⟩ | ⟨-, same⟩
  · obtain rfl := Option.some.inj (found.symm.trans held)
    rcases lookup_modify_some _ _ _ _ _ here with ⟨rfl, target, inside, rfl⟩ | ⟨-, other⟩
    · obtain rfl := Option.some.inj (there.symm.trans inside)
      obtain ⟨rfl, -⟩ := BlockState.requested.inj state
      exact Or.inr ⟨rfl, rfl, rfl, rfl⟩
    · exact Or.inl ⟨piece, instant, found, other, state⟩
  · exact Or.inl ⟨changed, instant, same, here, state⟩

theorem asked_marks (manager : DownloadManager) (index : UInt32) (piece : Piece) (offset : Nat)
    (block : Block) (peerIp : PeerIp) (now : Nat)
    (found : manager.pieceManager.pieces.lookup index = some piece)
    (there : piece.blocks.lookup offset = some block) :
    Requested (withPiece manager index fun piece => piece.requestFromPeer offset peerIp now)
      index offset (block.requestFromPeer peerIp now) peerIp := by
  refine ⟨piece.requestFromPeer offset peerIp now, now, ?_, ?_, rfl⟩
  · simp [withPiece, lookup_modify_self, found]
  · simp [Piece.requestFromPeer, lookup_modify_self, there]

theorem recieved_marks (manager after : DownloadManager) (choice : Choice) (index : UInt32)
    (begin : Nat) (data : Bytes) (actions : List Action)
    (sound : ∀ key piece, manager.pieceManager.pieces.lookup key = some piece → Sound sha1 piece)
    (handled : Recieved sha1 choice manager index begin data after actions) (key : UInt32)
    (offset : Nat) (block : Block) (peerIp : PeerIp)
    (holds : Requested after key offset block peerIp) :
    Requested manager key offset block peerIp := by
  have stored : Requested (withBlock sha1 manager index begin data) key offset block peerIp →
      Requested manager key offset block peerIp := by
    rintro ⟨changed, now, present, here, state⟩
    rcases lookup_modify_some _ _ _ _ _ present with ⟨rfl, old, held, rfl⟩ | ⟨-, same⟩
    · exact ⟨old, now, held, receive_block_requested sha1 old (sound key old held) begin offset
        data block peerIp now here state, state⟩
    · exact ⟨changed, now, same, here, state⟩
  cases handled with
  | unknown => exact holds
  | kept | failed => exact stored holds
  | wrote =>
      obtain ⟨changed, now, present, here, state⟩ := holds
      rcases lookup_modify_some _ _ _ _ _ present with ⟨rfl, old, held, rfl⟩ | ⟨-, same⟩
      · exact stored ⟨old, now, held, here, state⟩
      · exact stored ⟨changed, now, same, here, state⟩

theorem perform_marks (manager : DownloadManager) (call : Call)
    (sound : ∀ key piece, manager.pieceManager.pieces.lookup key = some piece →
      Sound sha1 piece) :
    Marks manager call (perform sha1 manager call).1 (perform sha1 manager call).2 := by
  cases call with
  | addPeer | removePeer | setDiskIo => exact .kept _ _ [] (fun _ _ _ _ => id) (by simp)
  | event event peerIp choice =>
      cases event with
      | peerUnchoked =>
          simp only [perform, handle_event_unchoked]
          rcases unchoke_cases choice manager peerIp with
            ⟨idle, -⟩ | ⟨index, piece, offset, block, found, -, there, -, next, picked, asked⟩
          · rw [idle]
            exact .kept _ _ [] (fun _ _ _ _ => id) (by simp)
          · rw [asked]
            exact .asked peerIp choice index piece offset block found there next picked
      | receivedPiece index begin data =>
          have handled := handle_recieved sha1 choice manager index begin.toNat data
          refine .kept _ _ _ (recieved_marks sha1 manager _ choice index begin.toNat data _ sound
            handled) ?_
          intro sender key start length delivered member
          cases recieved_sends sha1 choice manager _ index begin.toNat data _ handled sender _
            delivered member
      | receivedBitfield bitfield =>
          simp only [perform, handle_event_bitfield, handleBitfield]
          split
          · refine .kept _ _ _ (fun _ _ _ _ => id) ?_
            intro sender index begin length delivered member
            obtain ⟨_, _, same⟩ := send_to_peer_mem choice _ peerIp _ _ member
            cases same
          · exact .kept _ _ [] (fun _ _ _ _ => id) (by simp)
      | receivedHave | peerDisconnected | peerChoked | peerInterested | peerNotInterested
      | requestedBlock | downloadRate => exact .kept _ _ [] (fun _ _ _ _ => id) (by simp)

end Marks

section Backing

variable (sha1 : Bytes → Hash)

/-- The calls register the address, for the last time, with this sender; from then on they
lead to `state` and issue `log`. -/
def Since (start : DownloadManager) (calls : List Call) (peerIp : PeerIp) (sender : Sender)
    (state : DownloadManager) (log : List Action) : Prop :=
  ∃ past later joined before, calls = past ++ .addPeer peerIp sender :: later ∧
    (∀ other, .addPeer peerIp other ∉ later) ∧
    run (downloads sha1) start past = some (joined, before) ∧
    run (downloads sha1) (addPeer joined peerIp sender) later = some (state, log)

def Owed (start : DownloadManager) (calls : List Call) (state : DownloadManager)
    (index : UInt32) (offset : Nat) (length : UInt32) (peerIp : PeerIp) : Prop :=
  (state.peers.lookup peerIp).isSome ∧ ∃ sender log,
    Since sha1 start calls peerIp sender state log ∧
    .sent sender (.requestBlock index (UInt32.ofNat offset) length) true ∈ log

def Backed (start : DownloadManager) (calls : List Call) (state : DownloadManager) : Prop :=
  ∀ index offset block peerIp, Requested state index offset block peerIp →
    Owed sha1 start calls state index offset block.length peerIp

/-- A call that leaves no mark behind without its request: a peer that owes a block is
neither registered again nor dropped, and a new request finds its channel open. -/
def Careful (manager : DownloadManager) : Call → Prop
  | .addPeer peerIp _ | .removePeer peerIp | .event .peerDisconnected peerIp _ =>
      ∀ index offset block, ¬ Requested manager index offset block peerIp
  | .event .peerUnchoked peerIp choice =>
      ∀ sender record index offset length,
        manager.peers.lookup peerIp = some (sender, record) →
        manager.pieceManager.getNextPieceToDownload (getPeerAvailablePieces manager peerIp) =
          some index →
        manager.pieceManager.getNextBlockForPiece choice.blockOrder index =
          some (offset, length) →
        choice.connected sender = true ∨
          ∃ block, Requested manager index offset block peerIp
  | _ => True

theorem perform_sender (manager : DownloadManager) (call : Call) (peerIp : PeerIp)
    (stays : ¬ Rejoins peerIp call) :
    ((perform sha1 manager call).1.peers.lookup peerIp).map Prod.fst =
      (manager.peers.lookup peerIp).map Prod.fst := by
  cases call with
  | setDiskIo => rfl
  | addPeer other sender =>
      exact congrArg (Option.map Prod.fst) (AList.lookup_insert_ne (Ne.symm stays))
  | removePeer other =>
      exact congrArg (Option.map Prod.fst) (AList.lookup_erase_ne (Ne.symm stays))
  | event event other choice =>
      simp only [perform, handle_event_peers]
      apply peers_after_sender
      rintro rfl rfl
      exact stays rfl

theorem rejoins_cases (manager : DownloadManager) (call : Call) (peerIp : PeerIp)
    (rejoins : Rejoins peerIp call) :
    (∃ sender, call = .addPeer peerIp sender) ∨
      (perform sha1 manager call).1.peers.lookup peerIp = none := by
  cases call with
  | setDiskIo => cases rejoins
  | addPeer other sender =>
      obtain rfl : other = peerIp := rejoins
      exact Or.inl ⟨sender, rfl⟩
  | removePeer other =>
      obtain rfl : other = peerIp := rejoins
      exact Or.inr (AList.lookup_erase _ _)
  | event event other choice =>
      cases event with
      | peerDisconnected =>
          obtain rfl : other = peerIp := rejoins
          exact Or.inr (AList.lookup_erase _ _)
      | receivedBitfield | receivedHave | peerChoked | peerUnchoked | peerInterested
      | peerNotInterested | requestedBlock | receivedPiece | downloadRate => cases rejoins

theorem since_step (start state : DownloadManager) (calls : List Call) (call : Call)
    (peerIp : PeerIp) (sender : Sender) (log : List Action)
    (since : Since sha1 start calls peerIp sender state log)
    (other : ∀ sender, call ≠ .addPeer peerIp sender) :
    Since sha1 start (calls ++ [call]) peerIp sender (perform sha1 state call).1
      (log ++ (perform sha1 state call).2) := by
  obtain ⟨past, later, joined, before, rfl, last, began, ran⟩ := since
  refine ⟨past, later ++ [call], joined, before, by simp, ?_, began, ?_⟩
  · intro sender member
    rcases List.mem_append.mp member with old | new
    · exact last sender old
    · exact other sender (List.mem_singleton.mp new).symm
  · exact (run_snoc_iff _ _ _ later call _).mpr ⟨state, log, _, ran, rfl, rfl⟩

theorem owed_step (start state : DownloadManager) (calls : List Call) (call : Call)
    (index : UInt32) (offset : Nat) (length : UInt32) (peerIp : PeerIp)
    (stays : ¬ Rejoins peerIp call)
    (owed : Owed sha1 start calls state index offset length peerIp) :
    Owed sha1 start (calls ++ [call]) (perform sha1 state call).1 index offset length peerIp := by
  obtain ⟨registered, sender, log, since, asked⟩ := owed
  refine ⟨?_, sender, _, since_step sha1 start state calls call peerIp sender log since ?_,
    List.mem_append_left _ asked⟩
  · have kept := congrArg Option.isSome (perform_sender sha1 state call peerIp stays)
    rwa [Option.isSome_map, Option.isSome_map, registered] at kept
  · rintro other rfl
    exact stays rfl

def Registered (start : DownloadManager) (calls : List Call) (state : DownloadManager) : Prop :=
  ∀ peerIp sender record, state.peers.lookup peerIp = some (sender, record) →
    ∃ log, Since sha1 start calls peerIp sender state log

theorem registered_step (start state : DownloadManager) (calls : List Call) (call : Call)
    (log : List Action) (ran : run (downloads sha1) start calls = some (state, log))
    (registered : Registered sha1 start calls state) :
    Registered sha1 start (calls ++ [call]) (perform sha1 state call).1 := by
  intro peerIp sender record present
  by_cases rejoins : Rejoins peerIp call
  · rcases rejoins_cases sha1 state call peerIp rejoins with ⟨other, rfl⟩ | gone
    · have inserted : (addPeer state peerIp other).peers.lookup peerIp = some (other, none) :=
        AList.lookup_insert _
      obtain ⟨rfl, -⟩ := Prod.mk.inj (Option.some.inj (inserted.symm.trans present))
      exact ⟨[], calls, [], state, log, rfl, by simp, ran, rfl⟩
    · rw [gone] at present
      cases present
  · have kept := perform_sender sha1 state call peerIp rejoins
    rw [present, Option.map_some] at kept
    obtain ⟨⟨_, old⟩, there, rfl⟩ := Option.map_eq_some_iff.mp kept.symm
    obtain ⟨since_log, since⟩ := registered peerIp _ old there
    refine ⟨_, since_step sha1 start state calls call peerIp _ since_log since ?_⟩
    rintro other rfl
    exact rejoins rfl

theorem start_unregistered (torrent : Torrent) (blockSize : UInt32) (start : DownloadManager)
    (began : DownloadManager.new torrent blockSize = some start) : start.peers = ∅ := by
  simp only [DownloadManager.new, Option.map_eq_some_iff] at began
  obtain ⟨manager, -, rfl⟩ := began
  rfl

theorem run_registered (torrent : Torrent) (blockSize : UInt32) (start finish : DownloadManager)
    (calls : List Call) (log : List Action)
    (began : DownloadManager.new torrent blockSize = some start)
    (ran : run (downloads sha1) start calls = some (finish, log)) :
    Registered sha1 start calls finish := by
  refine run_performed sha1 start calls (fun past state _ => Registered sha1 start past state)
    ?_ ?_ calls (List.prefix_refl calls) finish log ran
  · intro peerIp sender record present
    rw [start_unregistered torrent blockSize start began] at present
    cases present
  · intro past call state log _ ran registered
    exact registered_step sha1 start state past call log ran registered

theorem careful_rejoins (manager : DownloadManager) (call : Call) (peerIp : PeerIp)
    (careful : Careful manager call) (rejoins : Rejoins peerIp call) (index : UInt32)
    (offset : Nat) (block : Block) : ¬ Requested manager index offset block peerIp := by
  cases call with
  | setDiskIo => cases rejoins
  | addPeer other sender =>
      obtain rfl : other = peerIp := rejoins
      exact careful index offset block
  | removePeer other =>
      obtain rfl : other = peerIp := rejoins
      exact careful index offset block
  | event event other choice =>
      cases event with
      | peerDisconnected =>
          obtain rfl : other = peerIp := rejoins
          exact careful index offset block
      | receivedBitfield | receivedHave | peerChoked | peerUnchoked | peerInterested
      | peerNotInterested | requestedBlock | receivedPiece | downloadRate => cases rejoins

theorem needed_registered (manager : DownloadManager) (peerIp : PeerIp) (index : UInt32)
    (next : manager.pieceManager.getNextPieceToDownload
      (getPeerAvailablePieces manager peerIp) = some index) :
    ∃ sender record, manager.peers.lookup peerIp = some (sender, record) := by
  cases present : manager.peers.lookup peerIp with
  | none => simp [getPeerAvailablePieces, present, PieceManager.getNextPieceToDownload] at next
  | some peer => exact ⟨peer.1, peer.2, rfl⟩

/-- A careful call keeps every mark backed. -/
theorem backed_step (start state : DownloadManager) (calls : List Call) (call : Call)
    (sound : ∀ key piece, state.pieceManager.pieces.lookup key = some piece → Sound sha1 piece)
    (careful : Careful state call) (registered : Registered sha1 start calls state)
    (backed : Backed sha1 start calls state) :
    Backed sha1 start (calls ++ [call]) (perform sha1 state call).1 := by
  intro index offset block peerIp marked
  have older : ∀ block, Requested state index offset block peerIp →
      Owed sha1 start (calls ++ [call]) (perform sha1 state call).1 index offset block.length
        peerIp := by
    intro block held
    refine owed_step sha1 start state calls call index offset block.length peerIp ?_
      (backed index offset block peerIp held)
    intro rejoins
    exact careful_rejoins state call peerIp careful rejoins index offset block held
  have marks := perform_marks sha1 state call sound
  generalize performed : perform sha1 state call = outcome at marks marked older ⊢
  obtain ⟨after, actions⟩ := outcome
  cases marks with
  | kept _ _ _ unmarked => exact older block (unmarked index offset block peerIp marked)
  | asked asker choice key piece place target found there next picked =>
      rcases asked_requested state key piece place target asker choice.now found there index
        offset block peerIp marked with held | ⟨rfl, rfl, rfl, size⟩
      · exact older block held
      · obtain ⟨sender, record, present⟩ := needed_registered state peerIp index next
        rcases careful sender record index offset target.length present next picked with
          connected | ⟨again, piece', now, found', there', state'⟩
        · obtain ⟨log, since⟩ := registered peerIp sender record present
          have stepped := since_step sha1 start state calls (.event .peerUnchoked peerIp choice)
            peerIp sender log since (fun _ => by simp)
          rw [performed] at stepped
          refine ⟨?_, sender, _, stepped, List.mem_append_right log ?_⟩
          · simp [present]
          · simp [withPiece, present, sendCommand, connected, size]
        · have same : again = target := by
            obtain rfl := Option.some.inj (found.symm.trans found')
            exact Option.some.inj (there'.symm.trans there)
          subst same
          rw [size]
          exact older again ⟨piece', now, found', there', state'⟩

theorem start_unmarked (torrent : Torrent) (blockSize : UInt32) (start : DownloadManager)
    (began : DownloadManager.new torrent blockSize = some start) (index : UInt32) (offset : Nat)
    (block : Block) (peerIp : PeerIp) : ¬ Requested start index offset block peerIp := by
  rintro ⟨piece, now, found, there, state⟩
  obtain ⟨i, hash, -, fresh⟩ := new_pieces_fresh torrent blockSize start began index piece found
  rw [fresh.missing offset block there] at state
  cases state

/-- In a run of careful calls every marked block is owed by a registered peer, whose
channel has taken the request since the peer was last registered. -/
theorem careful_run_backed (torrent : Torrent) (blockSize : UInt32) (start : DownloadManager)
    (began : DownloadManager.new torrent blockSize = some start) (calls : List Call)
    (careful : ∀ past call state log, past ++ [call] <+: calls →
      run (downloads sha1) start past = some (state, log) → Careful state call)
    (past : List Call) (state : DownloadManager) (log : List Action) (reached : past <+: calls)
    (ran : run (downloads sha1) start past = some (state, log)) :
    Backed sha1 start past state := by
  refine run_performed sha1 start calls (fun past state _ => Backed sha1 start past state)
    ?_ ?_ past reached state log ran
  · intro index offset block peerIp marked
    exact (start_unmarked torrent blockSize start began index offset block peerIp marked).elim
  · intro past call state log further ran backed
    have sound := run_sound sha1 torrent blockSize start state past log began ran
    have registered := run_registered sha1 torrent blockSize start state past log began ran
    exact backed_step sha1 start state past call sound (careful past call state log further ran)
      registered backed

def askedOnce : List Call :=
  [.addPeer default 0, .event (.receivedBitfield [128]) default default,
    .event .peerUnchoked default default]

theorem asked_once_careful (past : List Call) (call : Call) (state : DownloadManager)
    (log : List Action) (reached : past ++ [call] <+: askedOnce)
    (ran : run (downloads zeroHash) oneBlockManager past = some (state, log)) :
    Careful state call := by
  have member : call ∈ askedOnce :=
    reached.subset (List.mem_append_right past List.mem_cons_self)
  simp only [askedOnce, List.mem_cons, List.not_mem_nil, or_false] at member
  rcases member with rfl | rfl | rfl
  · obtain rfl : past = [] := by
      cases past with
      | nil => rfl
      | cons first rest =>
          have later := (List.cons_prefix_cons.mp reached).2.subset
            (List.mem_append_right rest List.mem_cons_self)
          simp at later
    obtain ⟨rfl, -⟩ := by simpa using ran
    intro index offset block
    exact start_unmarked oneBlock 4 oneBlockManager (Option.some_get _).symm index offset block _
  · trivial
  · exact fun _ _ _ _ _ _ _ _ => Or.inl rfl

theorem careful_run_backed_once :
    ∃ state log, run (downloads zeroHash) oneBlockManager askedOnce = some (state, log) ∧
      Backed zeroHash oneBlockManager askedOnce state :=
  ⟨_, _, rfl, careful_run_backed zeroHash oneBlock 4 oneBlockManager (Option.some_get _).symm
    askedOnce asked_once_careful askedOnce _ _ (List.prefix_refl _) rfl⟩

/-- The peer that owes the block is removed, and the mark stays. -/
theorem removed_peer_owes :
    ∃ state log, run (downloads zeroHash) oneBlockManager (askedOnce ++ [.removePeer default]) =
        some (state, log) ∧
      ¬ Backed zeroHash oneBlockManager (askedOnce ++ [.removePeer default]) state := by
  refine ⟨_, _, rfl, fun backed => ?_⟩
  obtain ⟨registered, -⟩ := backed 0 0 ⟨0, 0, 4, .requested default 0⟩ default
    ⟨_, 0, rfl, rfl, rfl⟩
  revert registered
  decide

end Backing

section Repeats

variable (sha1 : Bytes → Hash)

/-- No event makes the manager ask for a block that is marked, and the choice of the next
block passes over the marked ones. -/
structure NeverRepeats (manager : DownloadManager) : Prop where
  issued : ∀ event peerIp choice sender index begin length delivered,
    .sent sender (.requestBlock index begin length) delivered ∈
        (handleEvent sha1 choice manager event peerIp).2 →
      ∀ offset block owner, UInt32.ofNat offset = begin →
        ¬ Requested manager index offset block owner
  selected : ∀ order index offset length,
    manager.pieceManager.getNextBlockForPiece order index = some (offset, length) →
      ∀ block owner, ¬ Requested manager index offset block owner
  exhausted : ∀ order index piece, manager.pieceManager.pieces.lookup index = some piece →
    (∀ offset block, piece.blocks.lookup offset = some block → block.state ≠ .missing) →
      manager.pieceManager.getNextBlockForPiece order index = none

theorem never_repeats_unmarked (manager : DownloadManager) :
    NeverRepeats sha1 manager ↔
      ∀ index offset block owner, ¬ Requested manager index offset block owner := by
  constructor
  · rintro repeats index offset block owner ⟨piece, now, found, there, state⟩
    -- The order that starts with the marked block makes it the next one.
    have lacking : block.isComplete = false := by simp [Block.isComplete, state]
    have first := first_entry_starting_at (fun block : Block => !block.isComplete) piece.blocks
      offset block there (by simp [lacking])
    apply repeats.selected (IterOrder.startingAt ⟨offset, block⟩) index offset block.length ?_
      block owner ⟨piece, now, found, there, state⟩
    simp only [PieceManager.getNextBlockForPiece, found, Piece.getNextMissingBlock, first,
      Option.map_some, there]
  · intro unmarked
    refine ⟨?_, ?_, ?_⟩
    · intro _ _ _ _ index _ _ _ _ offset block owner _
      exact unmarked index offset block owner
    · intro _ index offset _ _ block owner
      exact unmarked index offset block owner
    · intro order index piece found full
      cases next : manager.pieceManager.getNextBlockForPiece order index with
      | none => rfl
      | some entry =>
          obtain ⟨block, there, lacking, -⟩ :=
            next_block_lacking order _ index entry.1 entry.2 piece found next
          cases state : block.state with
          | missing => exact (full entry.1 block there state).elim
          | requested owner now =>
              exact (unmarked index entry.1 block owner ⟨piece, now, found, there, state⟩).elim
          | received | written => simp [Block.isComplete, state] at lacking

def Lacking (piece : Piece) : Prop :=
  0 < piece.length → piece.isComplete = false →
    ∃ offset block, piece.blocks.lookup offset = some block ∧ block.isComplete = false

theorem run_lacking (torrent : Torrent) (blockSize : UInt32) (start finish : DownloadManager)
    (calls : List Call) (log : List Action)
    (began : DownloadManager.new torrent blockSize = some start)
    (ran : run (downloads sha1) start calls = some (finish, log)) (key : UInt32) (piece : Piece)
    (found : finish.pieceManager.pieces.lookup key = some piece) : Lacking piece := by
  intro positive needed
  exact incomplete_lacks sha1 piece (run_piece_settled sha1 torrent blockSize start finish calls
    log began ran key piece found) positive needed

theorem unchoke_needed_marks (torrent : Torrent) (blockSize : UInt32)
    (start state : DownloadManager) (calls : List Call) (log : List Action)
    (began : DownloadManager.new torrent blockSize = some start)
    (ran : run (downloads sha1) start calls = some (state, log)) (peerIp : PeerIp)
    (choice : Choice) (positive : torrent.info.pieceLength ≠ 0)
    (needed : peerHasNeededPieces state peerIp = true) :
    ∃ index offset block, Requested (handleUnchoke choice state peerIp).1 index offset block
      peerIp := by
  obtain ⟨index, next⟩ := Option.isSome_iff_exists.mp needed
  rcases unchoke_cases choice state peerIp with
    ⟨-, nothing⟩ | ⟨key, piece, offset, block, found, -, there, -, -, -, asked⟩
  · obtain ⟨piece, found, open_piece⟩ := next_piece_needed _ _ index next
    have size := (run_dimensions sha1 torrent blockSize start state calls log began ran index
      piece found).1
    obtain ⟨offset, block, there, lacking⟩ := run_lacking sha1 torrent blockSize start state
      calls log began ran index piece found (by omega) open_piece
    obtain ⟨entry, picked⟩ := next_block_exists choice.blockOrder state.pieceManager index offset
      piece block found there lacking
    rw [nothing index next] at picked
    cases picked
  · rw [asked]
    exact ⟨key, offset, _, asked_marks state key piece offset block peerIp choice.now found there⟩

/-- Along a run no block is ever asked for twice exactly when no block is asked for at all:
every unchoke comes from a peer without a needed piece, or pieces have no bytes. -/
theorem never_repeats_iff (torrent : Torrent) (blockSize : UInt32) (start : DownloadManager)
    (began : DownloadManager.new torrent blockSize = some start) (calls : List Call) :
    (∀ past state log, past <+: calls → run (downloads sha1) start past = some (state, log) →
        NeverRepeats sha1 state) ↔
      ∀ past peerIp choice state log, past ++ [.event .peerUnchoked peerIp choice] <+: calls →
        run (downloads sha1) start past = some (state, log) →
        torrent.info.pieceLength = 0 ∨ peerHasNeededPieces state peerIp = false := by
  constructor
  · intro repeats past peerIp choice state log reached ran
    by_contra asks
    rw [not_or, Bool.not_eq_false] at asks
    obtain ⟨index, offset, block, marked⟩ := unchoke_needed_marks sha1 torrent blockSize start
      state past log began ran peerIp choice asks.1 asks.2
    have stepped := run_further sha1 start state past log (.event .peerUnchoked peerIp choice) ran
    exact (never_repeats_unmarked sha1 _).mp (repeats _ _ _ reached stepped) index offset block
      peerIp marked
  · intro idle past state log reached ran
    apply (never_repeats_unmarked sha1 state).mpr
    refine run_performed sha1 start calls
      (fun _ state _ => ∀ index offset block owner, ¬ Requested state index offset block owner)
      (start_unmarked torrent blockSize start began) ?_ past reached state log ran
    intro past call state log further ran unmarked index offset block owner marked
    have sound := run_sound sha1 torrent blockSize start state past log began ran
    have marks := perform_marks sha1 state call sound
    generalize perform sha1 state call = outcome at marks marked
    obtain ⟨after, actions⟩ := outcome
    cases marks with
    | kept _ _ _ older => exact unmarked index offset block owner (older _ _ _ _ marked)
    | asked peerIp choice key piece place target found there next =>
        rcases idle past peerIp choice state log further ran with empty | unneeded
        · have size := (run_dimensions sha1 torrent blockSize start state past log began ran key
            piece found).1
          have inside := ((sound key piece found).tiled.entry place target there).1
          omega
        · simp [peerHasNeededPieces, next] at unneeded

theorem never_repeats_iff_once :
    (∀ past state log, past <+: askedOnce →
        run (downloads zeroHash) oneBlockManager past = some (state, log) →
        NeverRepeats zeroHash state) ↔
      ∀ past peerIp choice state log, past ++ [.event .peerUnchoked peerIp choice] <+: askedOnce →
        run (downloads zeroHash) oneBlockManager past = some (state, log) →
        oneBlock.info.pieceLength = 0 ∨ peerHasNeededPieces state peerIp = false :=
  never_repeats_iff zeroHash oneBlock 4 oneBlockManager (Option.some_get _).symm askedOnce

/-- A second unchoke asks for the same block again. -/
theorem second_unchoke_repeats :
    ∃ state log, run (downloads zeroHash) oneBlockManager askedOnce = some (state, log) ∧
      ¬ NeverRepeats zeroHash state := by
  refine ⟨_, _, rfl, fun repeats => ?_⟩
  apply repeats.issued .peerUnchoked default default 0 0 0 4 true (by decide) 0
    ⟨0, 0, 4, .requested default 0⟩ default rfl
  exact ⟨_, 0, rfl, rfl, rfl⟩

end Repeats

end MotteSeed.Requests
