import MotteSeed.Downloads
import MotteSeed.PieceInvariant

/-! Runs of the download manager: what is written to disk and announced, what a
finished download has persisted, and when a written piece stays written. Every
result follows from one list of what a call can do, `Step`. -/
namespace MotteSeed.DownloadSafety
open Toolkit Toolkit.HashTable Toolkit.Runs PeerWire PeerConnection TorrentMeta PieceStore
  PieceShape PieceInvariant Downloads

section Steps

variable (sha1 : Bytes → Hash)

def withPiece (manager : DownloadManager) (index : UInt32) (change : Piece → Piece) :
    DownloadManager :=
  { manager with
    pieceManager := { manager.pieceManager with
      pieces := modify manager.pieceManager.pieces index change } }

def withBlock (manager : DownloadManager) (index : UInt32) (begin : Nat) (block : Bytes) :
    DownloadManager :=
  withPiece manager index fun piece => (piece.receiveBlock sha1 begin block).1

inductive Recieved (choice : Choice) (manager : DownloadManager) (index : UInt32)
    (begin : Nat) (block : Bytes) : DownloadManager → List Action → Prop where
  | unknown (absent : manager.pieceManager.pieces.lookup index = none) :
      Recieved choice manager index begin block manager []
  | kept (piece : Piece) (found : manager.pieceManager.pieces.lookup index = some piece)
      (silent : manager.diskIo = false ∨
        (piece.receiveBlock sha1 begin block).1.getPieceData = none) :
      Recieved choice manager index begin block (withBlock sha1 manager index begin block) []
  | failed (piece : Piece) (data : Bytes)
      (found : manager.pieceManager.pieces.lookup index = some piece)
      (ready : (piece.receiveBlock sha1 begin block).1.getPieceData = some data) :
      Recieved choice manager index begin block (withBlock sha1 manager index begin block)
        [.wrotePiece index data false]
  | wrote (piece : Piece) (data : Bytes)
      (found : manager.pieceManager.pieces.lookup index = some piece)
      (ready : (piece.receiveBlock sha1 begin block).1.getPieceData = some data)
      (disk : manager.diskIo = true) :
      Recieved choice manager index begin block
        (withPiece (withBlock sha1 manager index begin block) index Piece.maskWritten)
        (.wrotePiece index data true ::
          broadcastHave choice (withBlock sha1 manager index begin block) index)

theorem data_complete (piece : Piece) (data : Bytes)
    (ready : piece.getPieceData = some data) : piece.isComplete = true := by
  unfold Piece.getPieceData at ready
  by_cases complete : piece.state = .complete
  · simp [Piece.isComplete, complete]
  · rw [if_neg complete] at ready
    cases ready

theorem handle_recieve_found (choice : Choice) (manager : DownloadManager) (index : UInt32)
    (begin : Nat) (block : Bytes) (piece : Piece)
    (found : manager.pieceManager.pieces.lookup index = some piece) :
    handleRecievePiece sha1 choice manager index begin block =
      if (piece.receiveBlock sha1 begin block).1.isComplete ∧ manager.diskIo then
        match (piece.receiveBlock sha1 begin block).1.getPieceData with
        | some data =>
            if choice.written then
              (withPiece (withBlock sha1 manager index begin block) index Piece.maskWritten,
                .wrotePiece index data true ::
                  broadcastHave choice (withBlock sha1 manager index begin block) index)
            else (withBlock sha1 manager index begin block, [.wrotePiece index data false])
        | none => (withBlock sha1 manager index begin block, [])
      else (withBlock sha1 manager index begin block, []) := by
  simp only [handleRecievePiece, PieceManager.receiveBlock, found, PieceManager.getPieceData,
    lookup_modify_self, Option.map_some]
  rfl

theorem handle_recieved (choice : Choice) (manager : DownloadManager) (index : UInt32)
    (begin : Nat) (block : Bytes) :
    Recieved sha1 choice manager index begin block
      (handleRecievePiece sha1 choice manager index begin block).1
      (handleRecievePiece sha1 choice manager index begin block).2 := by
  cases found : manager.pieceManager.pieces.lookup index with
  | none =>
      simp only [handleRecievePiece, PieceManager.receiveBlock, found, Bool.false_eq_true,
        false_and, if_false]
      exact .unknown found
  | some piece =>
      rw [handle_recieve_found sha1 choice manager index begin block piece found]
      cases ready : (piece.receiveBlock sha1 begin block).1.getPieceData with
      | none =>
          simp only [ite_self]
          exact .kept piece found (Or.inr ready)
      | some data =>
          -- Only a complete piece hands out data, so the flag of the reply agrees with it.
          have complete := data_complete _ data ready
          by_cases disk : manager.diskIo = true
          · rw [if_pos ⟨complete, disk⟩]
            by_cases written : choice.written = true
            · simp only [if_pos written]
              exact .wrote piece data found ready disk
            · simp only [if_neg written]
              exact .failed piece data found ready
          · rw [if_neg fun both => disk both.2]
            exact .kept piece found (Or.inl (by simpa using disk))

theorem recieved_sends (choice : Choice) (manager after : DownloadManager) (index : UInt32)
    (begin : Nat) (block : Bytes) (actions : List Action)
    (handled : Recieved sha1 choice manager index begin block after actions) (sender : Sender)
    (command : ManagerCommand) (delivered : Bool)
    (member : .sent sender command delivered ∈ actions) : command = .havePiece index := by
  cases handled with
  | unknown | kept => cases member
  | failed => cases List.mem_singleton.mp member
  | wrote =>
      rcases List.mem_cons.mp member with same | told
      · cases same
      · obtain ⟨peer, -, same⟩ := List.mem_map.mp told
        exact (Action.sent.inj same).2.1.symm

/-- Everything one call can do: leave the pieces alone, request one missing block of
one incomplete piece, or take a delivery. -/
inductive Step (manager : DownloadManager) : Call → DownloadManager → List Action → Prop where
  | quiet (call : Call) (after : DownloadManager) (actions : List Action)
      (same : after.pieceManager = manager.pieceManager)
      (disk : manager.diskIo = true → after.diskIo = true)
      (silent : ∀ action ∈ actions, ∃ sender delivered,
        action = .sent sender .interested delivered) :
      Step manager call after actions
  | requested (call : Call) (index : UInt32) (piece : Piece) (offset : Nat) (block : Block)
      (peerIp : PeerIp) (now : Nat) (actions : List Action)
      (found : manager.pieceManager.pieces.lookup index = some piece)
      (needed : piece.isComplete = false)
      (there : piece.blocks.lookup offset = some block) (lacking : block.isComplete = false)
      (asked : ∀ action ∈ actions, ∃ sender delivered, action =
        .sent sender (.requestBlock index (UInt32.ofNat offset) block.length) delivered) :
      Step manager call
        (withPiece manager index fun piece => piece.requestFromPeer offset peerIp now) actions
  | recieved (peerIp : PeerIp) (index begin : UInt32) (block : Bytes) (choice : Choice)
      (after : DownloadManager) (actions : List Action)
      (handled : Recieved sha1 choice manager index begin.toNat block after actions) :
      Step manager (.event (.receivedPiece index begin block) peerIp choice) after actions

theorem next_piece_needed (manager : PieceManager) (available : List UInt32) (index : UInt32)
    (next : manager.getNextPieceToDownload available = some index) :
    ∃ piece, manager.pieces.lookup index = some piece ∧ piece.isComplete = false := by
  have wanted := List.find?_some next
  cases found : manager.pieces.lookup index with
  | none => simp [found] at wanted
  | some piece =>
      refine ⟨piece, rfl, ?_⟩
      cases state : piece.state <;> simp_all [Piece.isComplete]

theorem next_block_lacking (order : IterOrder (Entry Nat Block)) (manager : PieceManager)
    (index : UInt32) (offset : Nat) (length : UInt32) (piece : Piece)
    (found : manager.pieces.lookup index = some piece)
    (next : manager.getNextBlockForPiece order index = some (offset, length)) :
    ∃ block, piece.blocks.lookup offset = some block ∧ block.isComplete = false ∧
      length = block.length := by
  simp only [PieceManager.getNextBlockForPiece, found, Piece.getNextMissingBlock] at next
  cases first : firstEntry order (fun block : Block => !block.isComplete) piece.blocks with
  | none => simp [first] at next
  | some entry =>
      obtain ⟨present, wanted⟩ := first_entry_some order _ piece.blocks entry first
      simp only [first, Option.map_some, present, Option.some.injEq, Prod.mk.injEq] at next
      obtain ⟨rfl, rfl⟩ := next
      exact ⟨entry.2, present, by simpa using wanted, rfl⟩

theorem next_block_exists (order : IterOrder (Entry Nat Block)) (manager : PieceManager)
    (index : UInt32) (offset : Nat) (piece : Piece) (block : Block)
    (found : manager.pieces.lookup index = some piece)
    (there : piece.blocks.lookup offset = some block) (lacking : block.isComplete = false) :
    ∃ entry, manager.getNextBlockForPiece order index = some entry := by
  simp only [PieceManager.getNextBlockForPiece, found, Piece.getNextMissingBlock]
  cases first : firstEntry order (fun block : Block => !block.isComplete) piece.blocks with
  | none =>
      have full := first_entry_none order _ piece.blocks first offset block there
      simp [lacking] at full
  | some entry =>
      obtain ⟨present, -⟩ := first_entry_some order _ piece.blocks entry first
      exact ⟨(entry.1, entry.2.length), by simp [present]⟩

theorem send_to_peer_mem (choice : Choice) (manager : DownloadManager) (peerIp : PeerIp)
    (command : ManagerCommand) (action : Action)
    (member : action ∈ sendToPeer choice manager peerIp command) :
    ∃ sender delivered, action = .sent sender command delivered := by
  unfold sendToPeer at member
  split at member
  · exact ⟨_, _, List.mem_singleton.mp member⟩
  · cases member

theorem unchoke_cases (choice : Choice) (manager : DownloadManager) (peerIp : PeerIp) :
    (handleUnchoke choice manager peerIp = (manager, []) ∧
      ∀ index, manager.pieceManager.getNextPieceToDownload
          (getPeerAvailablePieces manager peerIp) = some index →
        manager.pieceManager.getNextBlockForPiece choice.blockOrder index = none) ∨
    ∃ index piece offset block, manager.pieceManager.pieces.lookup index = some piece ∧
      piece.isComplete = false ∧ piece.blocks.lookup offset = some block ∧
      block.isComplete = false ∧
      manager.pieceManager.getNextPieceToDownload (getPeerAvailablePieces manager peerIp) =
        some index ∧
      manager.pieceManager.getNextBlockForPiece choice.blockOrder index =
        some (offset, block.length) ∧
      handleUnchoke choice manager peerIp =
        (withPiece manager index fun piece => piece.requestFromPeer offset peerIp choice.now,
          sendToPeer choice
            (withPiece manager index fun piece => piece.requestFromPeer offset peerIp choice.now)
            peerIp (.requestBlock index (UInt32.ofNat offset) block.length)) := by
  simp only [handleUnchoke, requestPiecesFromPeer]
  cases next : manager.pieceManager.getNextPieceToDownload
      (getPeerAvailablePieces manager peerIp) with
  | none => exact Or.inl ⟨rfl, fun index same => by cases same⟩
  | some index =>
      obtain ⟨piece, found, needed⟩ := next_piece_needed _ _ index next
      simp only [requestNextBlockForPiece]
      cases asked : manager.pieceManager.getNextBlockForPiece choice.blockOrder index with
      | none =>
          left
          refine ⟨rfl, fun other same => ?_⟩
          obtain rfl := Option.some.inj same
          exact asked
      | some entry =>
          obtain ⟨offset, length⟩ := entry
          obtain ⟨block, there, lacking, rfl⟩ :=
            next_block_lacking choice.blockOrder _ index offset length piece found asked
          exact Or.inr
            ⟨index, piece, offset, block, found, needed, there, lacking, rfl, asked, rfl⟩

theorem unchoke_step (choice : Choice) (manager : DownloadManager) (call : Call)
    (peerIp : PeerIp) :
    Step sha1 manager call (handleUnchoke choice manager peerIp).1
      (handleUnchoke choice manager peerIp).2 := by
  rcases unchoke_cases choice manager peerIp with
    ⟨idle, -⟩ | ⟨index, piece, offset, block, found, needed, there, lacking, -, -, asked⟩
  · rw [idle]
    exact .quiet call manager [] rfl id (by simp)
  · rw [asked]
    exact .requested call index piece offset block peerIp choice.now _ found needed there lacking
      fun action member => send_to_peer_mem choice _ peerIp _ action member

theorem perform_step (manager : DownloadManager) (call : Call) :
    Step sha1 manager call (perform sha1 manager call).1 (perform sha1 manager call).2 := by
  cases call with
  | addPeer | removePeer => exact .quiet _ _ [] rfl id (by simp)
  | setDiskIo => exact .quiet _ _ [] rfl (fun _ => rfl) (by simp)
  | event event peerIp choice =>
      cases event with
      | receivedPiece index begin block =>
          exact .recieved peerIp index begin block choice _ _
            (handle_recieved sha1 choice manager index begin.toNat block)
      | peerUnchoked => exact unchoke_step sha1 choice manager _ peerIp
      | receivedBitfield bitfield =>
          simp only [perform, handle_event_bitfield, handleBitfield]
          split
          · exact .quiet _ _ _ rfl id fun action member =>
              send_to_peer_mem choice _ peerIp _ action member
          · exact .quiet _ _ [] rfl id (by simp)
      | receivedHave | peerDisconnected | peerChoked | peerInterested | peerNotInterested
      | requestedBlock | downloadRate => exact .quiet _ _ [] rfl id (by simp)

theorem machine_step (manager after : DownloadManager) (call : Call) (actions : List Action)
    (performed : (downloads sha1).step manager call = some (after, actions)) :
    Step sha1 manager call after actions := by
  have same : perform sha1 manager call = (after, actions) := Option.some.inj performed
  have step := perform_step sha1 manager call
  rwa [same] at step

end Steps

section Runs

variable (sha1 : Bytes → Hash)

/-- What is true of every piece and kept by requests, deliveries and writes holds of
every piece after a step. -/
theorem step_pieces (holds : UInt32 → Piece → Prop) (manager after : DownloadManager)
    (call : Call) (actions : List Action) (step : Step sha1 manager call after actions)
    (before : ∀ key piece, manager.pieceManager.pieces.lookup key = some piece → holds key piece)
    (requested : ∀ key piece offset peerIp now, holds key piece → piece.isComplete = false →
      holds key (piece.requestFromPeer offset peerIp now))
    (delivered : ∀ key begin block peerIp choice piece,
      call = .event (.receivedPiece key begin block) peerIp choice → holds key piece →
        holds key (piece.receiveBlock sha1 begin.toNat block).1)
    (written : ∀ key piece data, holds key piece → piece.getPieceData = some data →
      holds key piece.maskWritten)
    (key : UInt32) (piece : Piece)
    (found : after.pieceManager.pieces.lookup key = some piece) : holds key piece := by
  cases step with
  | quiet _ _ _ same =>
      rw [same] at found
      exact before key piece found
  | requested _ index old offset block peerIp now _ present needed =>
      rcases lookup_modify_some _ _ _ _ _ found with ⟨rfl, other, there, rfl⟩ | ⟨-, same⟩
      · obtain rfl := Option.some.inj (present.symm.trans there)
        exact requested key old offset peerIp now (before key old present) needed
      · exact before key piece same
  | recieved peerIp index begin block choice _ _ handled =>
      have stored : ∀ other, (withBlock sha1 manager index begin.toNat
          block).pieceManager.pieces.lookup key = some other → holds key other := by
        intro other there
        rcases lookup_modify_some _ _ _ _ _ there with ⟨rfl, old, present, rfl⟩ | ⟨-, same⟩
        · exact delivered key begin block peerIp choice old rfl (before key old present)
        · exact before key other same
      cases handled with
      | unknown => exact before key piece found
      | kept | failed => exact stored piece found
      -- The mark goes on the piece as the delivery left it, with the data still in its blocks.
      | wrote old data present ready disk =>
          rcases lookup_modify_some _ _ _ _ _ found with ⟨rfl, other, there, rfl⟩ | ⟨-, same⟩
          · have same : other = (old.receiveBlock sha1 begin.toNat block).1 := by
              simp only [withBlock, withPiece, lookup_modify_self, present, Option.map_some]
                at there
              exact (Option.some.inj there).symm
            apply written key other data (stored other there)
            rw [same]
            exact ready
          · exact stored piece same

theorem run_total (manager : DownloadManager) (calls : List Call) :
    ∃ finish log, run (downloads sha1) manager calls = some (finish, log) := by
  induction calls generalizing manager with
  | nil => exact ⟨manager, [], rfl⟩
  | cons call rest ih =>
      obtain ⟨finish, log, ran⟩ := ih (perform sha1 manager call).1
      exact ⟨finish, (perform sha1 manager call).2 ++ log,
        (run_cons_iff _ _ _ _ _ _).mpr ⟨_, _, log, rfl, ran, rfl⟩⟩

theorem run_further (start state : DownloadManager) (past : List Call) (log : List Action)
    (call : Call) (ran : run (downloads sha1) start past = some (state, log)) :
    run (downloads sha1) start (past ++ [call]) =
      some ((perform sha1 state call).1, log ++ (perform sha1 state call).2) :=
  (run_snoc_iff (downloads sha1) start _ past call _).mpr ⟨state, log, _, ran, rfl, rfl⟩

theorem run_performed (start : DownloadManager) (calls : List Call)
    (inv : List Call → DownloadManager → List Action → Prop) (initial : inv [] start [])
    (keeps : ∀ past call state log, past ++ [call] <+: calls →
      run (downloads sha1) start past = some (state, log) → inv past state log →
      inv (past ++ [call]) (perform sha1 state call).1 (log ++ (perform sha1 state call).2))
    (past : List Call) (began : past <+: calls) (finish : DownloadManager) (log : List Action)
    (ran : run (downloads sha1) start past = some (finish, log)) : inv past finish log := by
  refine run_history (downloads sha1) start calls inv initial ?_ past began finish log ran
  intro past call state log next emitted inside ran held performed
  obtain ⟨rfl, rfl⟩ := Prod.mk.inj (Option.some.inj performed)
  exact keeps past call state log inside ran held

theorem run_pieces (holds : UInt32 → Piece → Prop) (start finish : DownloadManager)
    (calls : List Call) (log : List Action)
    (initial : ∀ key piece, start.pieceManager.pieces.lookup key = some piece → holds key piece)
    (requested : ∀ key piece offset peerIp now, holds key piece → piece.isComplete = false →
      holds key (piece.requestFromPeer offset peerIp now))
    (delivered : ∀ key begin block peerIp choice piece,
      .event (.receivedPiece key begin block) peerIp choice ∈ calls → holds key piece →
        holds key (piece.receiveBlock sha1 begin.toNat block).1)
    (written : ∀ key piece data, holds key piece → piece.getPieceData = some data →
      holds key piece.maskWritten)
    (ran : run (downloads sha1) start calls = some (finish, log)) (key : UInt32) (piece : Piece)
    (found : finish.pieceManager.pieces.lookup key = some piece) : holds key piece := by
  refine run_performed sha1 start calls
    (fun _ manager _ => ∀ key piece, manager.pieceManager.pieces.lookup key = some piece →
      holds key piece) initial ?_ calls (List.prefix_refl calls) finish log ran key piece found
  intro past call manager log began _ before
  refine step_pieces sha1 holds manager _ call _ (perform_step sha1 manager call) before
    requested ?_ written
  rintro key begin block peerIp choice piece rfl kept
  refine delivered key begin block peerIp choice piece (began.subset ?_) kept
  exact List.mem_append_right past List.mem_cons_self

theorem step_keys (manager after : DownloadManager) (call : Call) (actions : List Action)
    (step : Step sha1 manager call after actions) (key : UInt32) :
    (after.pieceManager.pieces.lookup key).isSome =
      (manager.pieceManager.pieces.lookup key).isSome := by
  cases step with
  | quiet _ _ _ same => rw [same]
  | requested => exact lookup_modify_isSome _ _ _ _
  | recieved _ _ _ _ _ _ _ handled =>
      cases handled with
      | unknown => rfl
      | kept | failed => exact lookup_modify_isSome _ _ _ _
      | wrote => exact (lookup_modify_isSome _ _ _ _).trans (lookup_modify_isSome _ _ _ _)

theorem run_keys (start finish : DownloadManager) (calls : List Call) (log : List Action)
    (ran : run (downloads sha1) start calls = some (finish, log)) (key : UInt32) :
    (finish.pieceManager.pieces.lookup key).isSome =
      (start.pieceManager.pieces.lookup key).isSome :=
  run_state_invariant (downloads sha1)
    (fun manager => (manager.pieceManager.pieces.lookup key).isSome =
      (start.pieceManager.pieces.lookup key).isSome)
    (fun state call next actions kept performed =>
      (step_keys sha1 state next call actions
        (machine_step sha1 state next call actions performed) key).trans kept)
    start finish calls log rfl ran

/-- A piece of a running manager: an initial piece with other states. -/
structure Descends (start : PieceManager) (key : UInt32) (piece : Piece) : Prop where
  origin : ∃ origin, start.pieces.lookup key = some origin ∧ SameShape origin piece
  sound : Sound sha1 piece

theorem descends_request (start : PieceManager) (key : UInt32) (piece : Piece) (offset : Nat)
    (peerIp : PeerIp) (now : Nat) (holds : Descends sha1 start key piece)
    (needed : piece.isComplete = false) :
    Descends sha1 start key (piece.requestFromPeer offset peerIp now) := by
  obtain ⟨⟨origin, found, same⟩, sound⟩ := holds
  exact ⟨⟨origin, found, same_shape_trans _ _ _ same (request_same_shape piece offset peerIp now)⟩,
    request_sound sha1 piece offset peerIp now sound needed⟩

theorem descends_deliver (start : PieceManager) (key : UInt32) (piece : Piece) (begin : Nat)
    (block : Bytes) (holds : Descends sha1 start key piece) :
    Descends sha1 start key (piece.receiveBlock sha1 begin block).1 := by
  obtain ⟨⟨origin, found, same⟩, sound⟩ := holds
  have delivered := receive_block_delivered sha1 piece sound begin block
  exact ⟨⟨origin, found, same_shape_trans _ _ _ same
      (delivered_same_shape sha1 piece _ begin block delivered)⟩,
    delivered_sound sha1 piece _ begin block sound delivered⟩

theorem descends_written (start : PieceManager) (key : UInt32) (piece : Piece) (data : Bytes)
    (holds : Descends sha1 start key piece) (ready : piece.getPieceData = some data) :
    Descends sha1 start key piece.maskWritten := by
  obtain ⟨⟨origin, found, same⟩, sound⟩ := holds
  exact ⟨⟨origin, found, ⟨same.index, same.length, same.hash, same.blockSize, same.blocks⟩⟩,
    mask_written_sound sha1 piece sound (data_complete piece data ready)⟩

theorem step_descends (start : PieceManager) (manager after : DownloadManager) (call : Call)
    (actions : List Action) (step : Step sha1 manager call after actions)
    (before : ∀ key piece, manager.pieceManager.pieces.lookup key = some piece →
      Descends sha1 start key piece)
    (key : UInt32) (piece : Piece)
    (found : after.pieceManager.pieces.lookup key = some piece) :
    Descends sha1 start key piece :=
  step_pieces sha1 (Descends sha1 start) manager after call actions step before
    (descends_request sha1 start)
    (fun key begin block _ _ piece _ kept =>
      descends_deliver sha1 start key piece begin.toNat block kept)
    (descends_written sha1 start) key piece found

theorem new_piece_manager (torrent : Torrent) (blockSize : UInt32) (start : DownloadManager)
    (began : DownloadManager.new torrent blockSize = some start) :
    PieceManager.new torrent blockSize = some start.pieceManager := by
  simp only [DownloadManager.new, Option.map_eq_some_iff] at began
  obtain ⟨manager, made, rfl⟩ := began
  exact made

theorem new_pieces_fresh (torrent : Torrent) (blockSize : UInt32) (start : DownloadManager)
    (began : DownloadManager.new torrent blockSize = some start) (key : UInt32) (piece : Piece)
    (found : start.pieceManager.pieces.lookup key = some piece) :
    ∃ i hash, torrent.info.pieceHash i = some hash ∧
      Fresh key torrent.info.pieceLength hash blockSize piece := by
  obtain ⟨i, hash, -, -, known, built⟩ := manager_new_from torrent blockSize _
    (new_piece_manager torrent blockSize start began) key piece found
  exact ⟨i, hash, known, piece_new_fresh _ _ _ _ piece built⟩

theorem incomplete_piece (manager : PieceManager) (key : UInt32) (piece : Piece)
    (found : manager.pieces.lookup key = some piece) (needed : piece.isComplete = false) :
    manager.isDownloadComplete = false := by
  rw [Bool.eq_false_iff]
  intro complete
  rw [(all_values_iff _ _).mp complete key piece found] at needed
  cases needed

theorem start_piece (torrent : Torrent) (blockSize : UInt32) (start : DownloadManager)
    (began : DownloadManager.new torrent blockSize = some start)
    (some_piece : 0 < hashCount torrent.info) :
    ∃ piece, start.pieceManager.pieces.lookup 0 = some piece :=
  manager_new_has torrent blockSize start.pieceManager
    (new_piece_manager torrent blockSize start began) 0 some_piece

theorem start_missing (torrent : Torrent) (blockSize : UInt32) (start : DownloadManager)
    (began : DownloadManager.new torrent blockSize = some start) (key : UInt32) (piece : Piece)
    (found : start.pieceManager.pieces.lookup key = some piece) : piece.isComplete = false := by
  obtain ⟨i, hash, -, fresh⟩ := new_pieces_fresh torrent blockSize start began key piece found
  simp [Piece.isComplete, fresh.state]

theorem run_descends (torrent : Torrent) (blockSize : UInt32) (start finish : DownloadManager)
    (calls : List Call) (log : List Action)
    (began : DownloadManager.new torrent blockSize = some start)
    (ran : run (downloads sha1) start calls = some (finish, log)) (key : UInt32) (piece : Piece)
    (found : finish.pieceManager.pieces.lookup key = some piece) :
    Descends sha1 start.pieceManager key piece := by
  refine run_pieces sha1 (Descends sha1 start.pieceManager) start finish calls log ?_
    (descends_request sha1 start.pieceManager) ?_ (descends_written sha1 start.pieceManager)
    ran key piece found
  · intro key piece found
    obtain ⟨i, hash, -, fresh⟩ := new_pieces_fresh torrent blockSize start began key piece found
    exact ⟨⟨piece, found, same_shape_refl piece⟩, (fresh_sound sha1 _ _ _ _ piece fresh).1⟩
  · intro key begin block peerIp choice piece _ holds
    exact descends_deliver sha1 start.pieceManager key piece begin.toNat block holds

def ShortBlock : Call → Prop
  | .event (.receivedPiece _ _ block) _ _ => block.length < 2 ^ 32
  | _ => True

theorem run_sound (torrent : Torrent) (blockSize : UInt32) (start finish : DownloadManager)
    (calls : List Call) (log : List Action)
    (began : DownloadManager.new torrent blockSize = some start)
    (ran : run (downloads sha1) start calls = some (finish, log)) (key : UInt32) (piece : Piece)
    (found : finish.pieceManager.pieces.lookup key = some piece) : Sound sha1 piece :=
  (run_descends sha1 torrent blockSize start finish calls log began ran key piece found).sound

/-- What is true of fresh pieces and kept by requests, writes and the outcomes of deliveries
holds of every piece of a running manager. -/
theorem run_descended (holds : Piece → Prop) (torrent : Torrent) (blockSize : UInt32)
    (start finish : DownloadManager) (calls : List Call) (log : List Action)
    (began : DownloadManager.new torrent blockSize = some start)
    (initial : ∀ key hash piece, Fresh key torrent.info.pieceLength hash blockSize piece →
      holds piece)
    (requested : ∀ piece offset peerIp now, holds piece →
      holds (piece.requestFromPeer offset peerIp now))
    (delivered : ∀ key begin block peerIp choice piece after,
      .event (.receivedPiece key begin block) peerIp choice ∈ calls →
      Descends sha1 start.pieceManager key piece → holds piece →
      Delivered sha1 piece begin.toNat block after → holds after)
    (written : ∀ piece data, holds piece → piece.getPieceData = some data →
      holds piece.maskWritten)
    (ran : run (downloads sha1) start calls = some (finish, log)) (key : UInt32) (piece : Piece)
    (found : finish.pieceManager.pieces.lookup key = some piece) : holds piece := by
  suffices both : Descends sha1 start.pieceManager key piece ∧ holds piece from both.2
  refine run_pieces sha1 (fun key piece => Descends sha1 start.pieceManager key piece ∧
    holds piece) start finish calls log ?_ ?_ ?_ ?_ ran key piece found
  · intro key piece found
    obtain ⟨i, hash, -, fresh⟩ := new_pieces_fresh torrent blockSize start began key piece found
    exact ⟨⟨⟨piece, found, same_shape_refl piece⟩, (fresh_sound sha1 _ _ _ _ piece fresh).1⟩,
      initial key hash piece fresh⟩
  · rintro key piece offset peerIp now ⟨descends, kept⟩ needed
    exact ⟨descends_request sha1 _ key piece offset peerIp now descends needed,
      requested piece offset peerIp now kept⟩
  · rintro key begin block peerIp choice piece member ⟨descends, kept⟩
    exact ⟨descends_deliver sha1 _ key piece begin.toNat block descends,
      delivered key begin block peerIp choice piece _ member descends kept
        (receive_block_delivered sha1 piece descends.sound begin.toNat block)⟩
  · rintro key piece data ⟨descends, kept⟩ ready
    exact ⟨descends_written sha1 _ key piece data descends ready, written piece data kept ready⟩

theorem run_exact (torrent : Torrent) (blockSize : UInt32) (start finish : DownloadManager)
    (calls : List Call) (log : List Action)
    (began : DownloadManager.new torrent blockSize = some start)
    (short : ∀ call ∈ calls, ShortBlock call)
    (ran : run (downloads sha1) start calls = some (finish, log)) (key : UInt32) (piece : Piece)
    (found : finish.pieceManager.pieces.lookup key = some piece) : Exact piece := by
  refine run_descended sha1 Exact torrent blockSize start finish calls log began ?_
    request_exact ?_ (fun _ _ exact _ => exact) ran key piece found
  · intro key hash piece fresh
    exact (fresh_sound sha1 _ _ _ _ piece fresh).2
  · intro key begin block peerIp choice piece after member _ exact delivered
    exact delivered_exact sha1 piece after begin.toNat block exact (short _ member) delivered

end Runs

def oneBlock : Torrent := fourByteTorrent 4 (List.replicate 20 0)

def zeroHash : Bytes → Hash := fun _ => Vector.replicate 20 0

end MotteSeed.DownloadSafety
