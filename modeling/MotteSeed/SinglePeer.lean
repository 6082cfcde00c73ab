import MotteSeed.DownloadSafety

/-! The manager and one obliging peer. The peer announces every piece, unchokes the
manager once and answers every request with the right bytes. An unchoke asks for one
block and a delivery asks for none, so the exchange falls silent after one block. -/
namespace MotteSeed.SinglePeer
open Toolkit Toolkit.HashTable Toolkit.Tiling Toolkit.Runs PeerWire PeerConnection TorrentMeta
  PieceStore PieceShape PieceInvariant Downloads DownloadSafety

abbrev Request := UInt32 × UInt32 × UInt32

structure Peer where
  ip : PeerIp
  sender : Sender
  bitfield : Bytes
  content : UInt32 → Bytes

/-- The manager, the events on its channel, the requests without an answer, and
whether the loop has returned. -/
structure Exchange where
  manager : DownloadManager
  events : List PeerEvent
  requests : List Request
  returned : Bool

inductive Move where
  | handle (choice : Choice)
  | answer (position : Nat)

def requestOf : Action → Option Request
  | .sent _ (.requestBlock index begin length) _ => some (index, begin, length)
  | _ => none

section System

variable (sha1 : Bytes → Hash) (peer : Peer)

def answerTo (request : Request) : PeerEvent :=
  .receivedPiece request.1 request.2.1
    (ByteImage.slice (peer.content request.1) request.2.1.toNat request.2.2.toNat)

/-- Writes succeed and the command channel stays open. -/
def move (state : Exchange) : Move → Option (Exchange × List Action)
  | .handle choice =>
      if state.returned = false ∧ choice.written = true ∧ choice.connected peer.sender = true then
        match state.events with
        | [] => none
        | event :: rest =>
            let handled := handleEvent sha1 choice state.manager event peer.ip
            some ({
              manager := handled.1
              events := rest
              requests := state.requests ++ handled.2.filterMap requestOf
              returned := handled.1.pieceManager.isDownloadComplete }, handled.2)
      else none
  | .answer position =>
      match state.requests[position]? with
      | none => none
      | some request =>
          some ({ state with
            events := state.events ++ [answerTo peer request]
            requests := state.requests.eraseIdx position }, [])

def exchange : Machine Exchange Move Action := ⟨move sha1 peer⟩

def opening (start : DownloadManager) (disk : Bool) : Exchange :=
  { manager := addPeer { start with diskIo := disk } peer.ip peer.sender
    events := [.receivedBitfield peer.bitfield, .peerUnchoked]
    requests := []
    returned := false }

/-- Whenever nothing is pending and nothing is unanswered, the download is complete. -/
def NoStall (start : DownloadManager) (disk : Bool) : Prop :=
  ∀ state, Reaches (exchange sha1 peer) (opening peer start disk) state →
    state.events = [] → state.requests = [] →
      state.manager.pieceManager.isDownloadComplete = true

structure Seeds (info : Info) : Prop where
  announces : ∀ i, i < hashCount info → UInt32.ofNat i ∈ bitfieldPieces peer.bitfield
  lengths : ∀ i, i < hashCount info → (peer.content (UInt32.ofNat i)).length = info.pieceLength
  hashes : ∀ i, i < hashCount info →
    info.pieceHash i = some (sha1 (peer.content (UInt32.ofNat i)))

def SingleBlock (info : Info) (blockSize : UInt32) : Prop :=
  hashCount info = 0 ∨
    (hashCount info = 1 ∧ 0 < info.pieceLength ∧ info.pieceLength ≤ blockSize.toNat)

end System

section Silence

variable (sha1 : Bytes → Hash) (peer : Peer) (torrent : Torrent) (blockSize : UInt32)
  (start : DownloadManager) (began : DownloadManager.new torrent blockSize = some start)

theorem handle_reaches (first state : Exchange) (event : PeerEvent) (rest : List PeerEvent)
    (reached : Reaches (exchange sha1 peer) first state) (going : state.returned = false)
    (waiting : state.events = event :: rest) :
    Reaches (exchange sha1 peer) first {
      manager := (handleEvent sha1 default state.manager event peer.ip).1
      events := rest
      requests := state.requests ++
        (handleEvent sha1 default state.manager event peer.ip).2.filterMap requestOf
      returned := (handleEvent sha1 default state.manager event
        peer.ip).1.pieceManager.isDownloadComplete } := by
  have able : state.returned = false ∧ (default : Choice).written = true ∧
      (default : Choice).connected peer.sender = true := ⟨going, rfl, rfl⟩
  refine reaches_step (exchange sha1 peer) first state _ (.handle default)
    (handleEvent sha1 default state.manager event peer.ip).2 reached ?_
  simp only [exchange, move, if_pos able, waiting]

theorem no_requests (choice : Choice) (manager after : DownloadManager) (index : UInt32)
    (begin : Nat) (block : Bytes) (actions : List Action)
    (handled : Recieved sha1 choice manager index begin block after actions) :
    actions.filterMap requestOf = [] := by
  rw [List.filterMap_eq_nil_iff]
  intro action member
  cases handled with
  | unknown | kept => cases member
  | failed =>
      obtain rfl := List.mem_singleton.mp member
      rfl
  | wrote =>
      rcases List.mem_cons.mp member with rfl | announced
      · rfl
      · obtain ⟨entry, -, rfl⟩ := List.mem_map.mp announced
        rfl

def recordBitfield (manager : DownloadManager) : DownloadManager :=
  { manager with
    peers := modify manager.peers peer.ip fun entry => (entry.1, some peer.bitfield) }

theorem bitfield_handled (choice : Choice) (manager : DownloadManager) :
    (handleBitfield choice manager peer.ip peer.bitfield).1 = recordBitfield peer manager ∧
      (handleBitfield choice manager peer.ip peer.bitfield).2.filterMap requestOf = [] := by
  simp only [handleBitfield]
  split
  · refine ⟨rfl, ?_⟩
    rw [List.filterMap_eq_nil_iff]
    intro action member
    obtain ⟨sender, delivered, rfl⟩ := send_to_peer_mem choice _ peer.ip _ action member
    rfl
  · exact ⟨rfl, rfl⟩

theorem other_block (piece : Piece) (tiled : Tiled piece) (offset : Nat)
    (longer : piece.blockSize.toNat < piece.length) :
    ∃ other block, other ≠ offset ∧ piece.blocks.lookup other = some block := by
  by_cases first : offset = 0
  · obtain ⟨block, there⟩ := tiled.covers piece.blockSize.toNat longer (Nat.mod_self _)
    have positive := tiled.positive (by omega)
    exact ⟨piece.blockSize.toNat, block, by omega, there⟩
  · obtain ⟨block, there⟩ := tiled.covers 0 (by omega) (Nat.zero_mod _)
    exact ⟨0, block, fun same => first same.symm, there⟩

theorem delivery_incomplete (index : UInt32) (length : Nat) (hash : Hash) (piece : Piece)
    (fresh : Fresh index length hash blockSize piece) (offset now : Nat) (data : Bytes)
    (longer : blockSize.toNat < length) :
    (((piece.requestFromPeer offset peer.ip now).receiveBlock sha1 offset
      data).1).isComplete = false := by
  have needed : piece.isComplete = false := by simp [Piece.isComplete, fresh.state]
  have sound := request_sound sha1 piece offset peer.ip now
    (fresh_sound sha1 _ _ _ _ piece fresh).1 needed
  have delivered := receive_block_delivered sha1 _ sound offset data
  obtain ⟨other, block, apart, there⟩ := other_block piece fresh.tiled offset
    (by rwa [fresh.length, fresh.blockSize])
  rw [Bool.eq_false_iff]
  intro complete
  have next := delivered_sound sha1 _ _ offset data sound delivered
  have all := complete_all_received sha1 _ next complete
  have asked := lookup_modify_ne piece.blocks offset other
    (fun block => block.requestFromPeer peer.ip now) apart
  have stored := lookup_modify_ne (piece.requestFromPeer offset peer.ip now).blocks offset other
    (fun block => block.receiveData data) apart
  generalize ((piece.requestFromPeer offset peer.ip now).receiveBlock sha1 offset data).1 = after
    at delivered complete all
  cases delivered with
  | unknown =>
      obtain ⟨bytes, received⟩ := all other block (asked.trans there)
      rw [fresh.missing other block there] at received
      cases received
  | partly | verified =>
      obtain ⟨bytes, received⟩ := all other block (stored.trans (asked.trans there))
      rw [fresh.missing other block there] at received
      cases received
  | rejected => cases complete

include began

theorem one_delivery_incomplete (choice : Choice) (before after : DownloadManager)
    (same : before.pieceManager = start.pieceManager) (index : UInt32) (piece : Piece)
    (offset now : Nat) (block : Block) (data : Bytes) (actions : List Action)
    (found : start.pieceManager.pieces.lookup index = some piece)
    (there : piece.blocks.lookup offset = some block)
    (more : ¬ SingleBlock torrent.info blockSize) (some_piece : 0 < hashCount torrent.info)
    (handled : Recieved sha1 choice
      (withPiece before index fun piece => piece.requestFromPeer offset peer.ip now) index offset
      data after actions) :
    after.pieceManager.isDownloadComplete = false := by
  obtain ⟨i, hash, -, fresh⟩ := new_pieces_fresh torrent blockSize start began index piece found
  have positive : 0 < torrent.info.pieceLength := by
    have inside := (fresh.tiled.entry offset block there).1
    rw [fresh.length] at inside
    omega
  -- With one piece it is the piece itself that lacks a block.
  by_cases single : hashCount torrent.info = 1
  · have longer : blockSize.toNat < torrent.info.pieceLength := by
      by_contra whole
      exact more (Or.inr ⟨single, positive, by omega⟩)
    have left := delivery_incomplete sha1 peer blockSize index _ hash piece fresh offset now data
      longer
    have asked : (withPiece before index fun piece =>
        piece.requestFromPeer offset peer.ip now).pieceManager.pieces.lookup index =
          some (piece.requestFromPeer offset peer.ip now) := by
      rw [withPiece, lookup_modify_self, same, found, Option.map_some]
    cases handled with
    | unknown absent =>
        rw [asked] at absent
        cases absent
    | kept | failed =>
        refine incomplete_piece _ index _ ?_ left
        rw [withBlock, withPiece, lookup_modify_self, asked, Option.map_some]
    | wrote old data present ready disk =>
        obtain rfl := Option.some.inj (asked.symm.trans present)
        rw [data_complete _ data ready] at left
        cases left
  · -- With two pieces the one that was not asked for is still missing.
    obtain ⟨other, held, apart, there⟩ : ∃ other held, other ≠ index ∧
        start.pieceManager.pieces.lookup other = some held := by
      have has := manager_new_has torrent blockSize start.pieceManager
        (new_piece_manager torrent blockSize start began)
      by_cases zero : index = 0
      · obtain ⟨held, there⟩ := has 1 (by omega)
        exact ⟨UInt32.ofNat 1, held, by rw [zero]; decide, there⟩
      · obtain ⟨held, there⟩ := has 0 (by omega)
        exact ⟨UInt32.ofNat 0, held, fun first => zero first.symm, there⟩
    have asked : (withPiece before index fun piece =>
        piece.requestFromPeer offset peer.ip now).pieceManager.pieces.lookup other = some held := by
      rw [withPiece, lookup_modify_ne _ _ _ _ apart, same, there]
    refine incomplete_piece _ other held ?_ (start_missing torrent blockSize start began other held
      there)
    cases handled with
    | unknown => exact asked
    | kept | failed => rw [withBlock, withPiece, lookup_modify_ne _ _ _ _ apart, asked]
    | wrote =>
        rw [withPiece, lookup_modify_ne _ _ _ _ apart, withBlock, withPiece,
          lookup_modify_ne _ _ _ _ apart, asked]

theorem announced_reached (disk : Bool) (some_piece : 0 < hashCount torrent.info) :
    ∃ manager, manager.pieceManager = start.pieceManager ∧
      manager.peers.lookup peer.ip = some (peer.sender, some peer.bitfield) ∧
      Reaches (exchange sha1 peer) (opening peer start disk)
        ⟨manager, [.peerUnchoked], [], false⟩ := by
  obtain ⟨first, held⟩ := start_piece torrent blockSize start began some_piece
  have needed := incomplete_piece start.pieceManager 0 first held
    (start_missing torrent blockSize start began 0 first held)
  obtain ⟨stored, quiet⟩ := bitfield_handled peer default (opening peer start disk).manager
  have reached := handle_reaches sha1 peer _ _ (.receivedBitfield peer.bitfield) [.peerUnchoked]
    (reaches_refl (exchange sha1 peer) (opening peer start disk)) rfl rfl
  have going : (recordBitfield peer
      (opening peer start disk).manager).pieceManager.isDownloadComplete = false := needed
  simp only [handle_event_bitfield, stored, quiet, going] at reached
  refine ⟨recordBitfield peer (opening peer start disk).manager, rfl, ?_, reached⟩
  simp [recordBitfield, opening, addPeer, lookup_modify_self]

/-- More than one block: the exchange falls silent with something missing. -/
theorem stalls (disk : Bool) (more : ¬ SingleBlock torrent.info blockSize) :
    ¬ NoStall sha1 peer start disk := by
  intro flows
  have some_piece : 0 < hashCount torrent.info :=
    Nat.pos_of_ne_zero fun none => more (Or.inl none)
  obtain ⟨first, held⟩ := start_piece torrent blockSize start began some_piece
  have missing := start_missing torrent blockSize start began 0 first held
  obtain ⟨manager, same, registered, reached⟩ :=
    announced_reached sha1 peer torrent blockSize start began disk some_piece
  have unchoked := handle_reaches sha1 peer _ _ .peerUnchoked [] reached rfl rfl
  rcases unchoke_cases default manager peer.ip with
    ⟨idle, -⟩ | ⟨index, piece, offset, block, found, needed, there, lacking, -, -, asked⟩
  · simp only [handle_event_unchoked, idle] at unchoked
    have complete := flows _ unchoked rfl rfl
    rw [same, incomplete_piece start.pieceManager 0 first held missing] at complete
    cases complete
  · rw [same] at found
    obtain ⟨i, hash, -, fresh⟩ := new_pieces_fresh torrent blockSize start began index piece found
    have narrow : (UInt32.ofNat offset).toNat = offset := by
      have inside := (fresh.tiled.entry offset block there).1
      have bound := fresh.tiled.narrow
      rw [UInt32.toNat_ofNat', Nat.mod_eq_of_lt (by omega)]
    -- The request goes out, is answered, and its answer is handled.
    have sent : sendToPeer default (withPiece manager index fun piece =>
        piece.requestFromPeer offset peer.ip (default : Choice).now) peer.ip
          (.requestBlock index (UInt32.ofNat offset) block.length) =
        [.sent peer.sender (.requestBlock index (UInt32.ofNat offset) block.length) true] := by
      simp only [sendToPeer, withPiece, registered]
      rfl
    have waiting : (withPiece manager index fun piece => piece.requestFromPeer offset peer.ip
        (default : Choice).now).pieceManager.isDownloadComplete = false := by
      refine incomplete_piece _ index (piece.requestFromPeer offset peer.ip
        (default : Choice).now) ?_ (start_missing torrent blockSize start began index piece found)
      rw [withPiece, lookup_modify_self, same, found, Option.map_some]
    simp only [handle_event_unchoked, asked, sent, waiting] at unchoked
    have answered := reaches_step (exchange sha1 peer) _ _ _ (.answer 0) [] unchoked rfl
    have delivered := handle_reaches sha1 peer _ _ _ [] answered rfl rfl
    simp only [answerTo, handle_event_piece, narrow] at delivered
    have handled := handle_recieved sha1 default (withPiece manager index fun piece =>
      piece.requestFromPeer offset peer.ip (default : Choice).now) index offset
      (ByteImage.slice (peer.content index) offset block.length.toNat)
    have silent := no_requests sha1 default _ _ index offset _ _ handled
    have complete := flows _ delivered rfl (by rw [silent]; rfl)
    rw [one_delivery_incomplete sha1 peer torrent blockSize start began default manager _ same index
      piece offset _ block _ _ found there more some_piece handled] at complete
    cases complete

end Silence

section Flow

variable (sha1 : Bytes → Hash) (peer : Peer)

theorem handle_taken (state after : Exchange) (choice : Choice) (actions : List Action)
    (moved : move sha1 peer state (.handle choice) = some (after, actions)) :
    state.returned = false ∧ choice.connected peer.sender = true ∧
      ∃ event rest, state.events = event :: rest ∧
        after = {
          manager := (handleEvent sha1 choice state.manager event peer.ip).1
          events := rest
          requests := state.requests ++
            (handleEvent sha1 choice state.manager event peer.ip).2.filterMap requestOf
          returned := (handleEvent sha1 choice state.manager event
            peer.ip).1.pieceManager.isDownloadComplete } := by
  simp only [move] at moved
  by_cases able : state.returned = false ∧ choice.written = true ∧
      choice.connected peer.sender = true
  · rw [if_pos able] at moved
    cases waiting : state.events with
    | nil => simp [waiting] at moved
    | cons event rest =>
        simp only [waiting, Option.some.injEq, Prod.mk.injEq] at moved
        exact ⟨able.1, able.2.2, event, rest, rfl, moved.1.symm⟩
  · rw [if_neg able] at moved
    cases moved

theorem single_block (index : UInt32) (length : Nat) (hash : Hash) (blockSize : UInt32)
    (piece : Piece) (fresh : Fresh index length hash blockSize piece)
    (whole : length ≤ blockSize.toNat) (offset : Nat) (block : Block)
    (found : piece.blocks.lookup offset = some block) :
    offset = 0 ∧ block.length = UInt32.ofNat length := by
  have narrow := fresh.tiled.narrow
  obtain ⟨inside, multiple, -, -, size⟩ := fresh.tiled.entry offset block found
  rw [fresh.length] at inside narrow
  rw [fresh.blockSize, Nat.mod_eq_of_lt (by omega)] at multiple
  rw [fresh.blockSize, fresh.length, multiple, tile, Nat.sub_zero,
    Nat.min_eq_right whole] at size
  exact ⟨multiple, UInt32.toNat.inj (by
    rw [size, UInt32.toNat_ofNat', Nat.mod_eq_of_lt (by omega)])⟩

theorem single_block_verified (index : UInt32) (data : Bytes) (blockSize : UInt32)
    (piece : Piece) (fresh : Fresh index data.length (sha1 data) blockSize piece)
    (positive : 0 < data.length) (whole : data.length ≤ blockSize.toNat) (now : Nat) :
    ((piece.requestFromPeer 0 peer.ip now).receiveBlock sha1 0 data).1.state = .complete := by
  have needed : piece.isComplete = false := by simp [Piece.isComplete, fresh.state]
  have sound := request_sound sha1 piece 0 peer.ip now (fresh_sound sha1 _ _ _ _ piece fresh).1
    needed
  have delivered := receive_block_delivered sha1 _ sound 0 data
  obtain ⟨block, there⟩ := fresh.tiled.covers 0 (by rwa [fresh.length]) (Nat.zero_mod _)
  obtain ⟨-, size⟩ := single_block index _ _ blockSize piece fresh whole 0 block there
  have asked : (piece.requestFromPeer 0 peer.ip now).blocks.lookup 0 =
      some (block.requestFromPeer peer.ip now) := by
    rw [Piece.requestFromPeer, lookup_modify_self, there, Option.map_some]
  have stored : (withData (piece.requestFromPeer 0 peer.ip now) 0 data).blocks.lookup 0 =
      some { block with state := .received data } := by
    rw [withData, lookup_modify_self, asked, Option.map_some, Block.receiveData,
      if_pos (show UInt32.ofNat data.length = (block.requestFromPeer peer.ip now).length from
        size.symm)]
    rfl
  have hashed : (withData (piece.requestFromPeer 0 peer.ip now) 0 data).hashedData =
      .data data := by
    have steps : data.length = (data.length - 1) + 1 := by omega
    have length : (withData (piece.requestFromPeer 0 peer.ip now) 0 data).length =
        data.length := fresh.length
    have size : (withData (piece.requestFromPeer 0 peer.ip now) 0 data).blockSize =
        blockSize := fresh.blockSize
    rw [Piece.hashedData, length, size]
    conv_lhs => arg 4; rw [steps]
    rw [gather_step _ _ _ _ 0 [] data _ positive stored rfl, gather_end _ _ _ _ _ _ (by omega)]
    rfl
  generalize ((piece.requestFromPeer 0 peer.ip now).receiveBlock sha1 0 data).1 = after
    at delivered
  cases delivered with
  | unknown absent =>
      rw [asked] at absent
      cases absent
  | partly _ _ lacking =>
      exact absurd ((hashed_data_iff _ (tiled_same_shape _ _ sound.tiled
        (with_data_same_shape _ 0 data))).mp ⟨data, hashed⟩) lacking
  | verified => rfl
  | rejected _ _ bytes ended differs =>
      obtain rfl := Gathered.data.inj (hashed.symm.trans ended)
      exact absurd fresh.hash.symm differs

variable (torrent : Torrent) (blockSize : UInt32) (start : DownloadManager)
  (began : DownloadManager.new torrent blockSize = some start)

include began

theorem start_single (single : hashCount torrent.info = 1) (seeds : Seeds sha1 peer torrent.info) :
    (∃ piece, start.pieceManager.pieces.lookup 0 = some piece ∧
      Fresh 0 (peer.content 0).length (sha1 (peer.content 0)) blockSize piece) ∧
    ∀ key piece, start.pieceManager.pieces.lookup key = some piece → key = 0 := by
  have made := new_piece_manager torrent blockSize start began
  have only : ∀ key piece, start.pieceManager.pieces.lookup key = some piece → key = 0 := by
    intro key piece found
    obtain ⟨i, hash, less, rfl, -⟩ := manager_new_from torrent blockSize _ made key piece found
    have zero : i = 0 := by omega
    rw [zero]
    rfl
  refine ⟨?_, only⟩
  obtain ⟨piece, found⟩ := start_piece torrent blockSize start began (by omega)
  obtain ⟨hash, known, built⟩ :=
    manager_new_lookup torrent blockSize _ (by omega) made 0 piece found
  have same : hash = sha1 (peer.content 0) :=
    Option.some.inj (known.symm.trans (seeds.hashes 0 (by omega)))
  have size : (peer.content 0).length = torrent.info.pieceLength := seeds.lengths 0 (by omega)
  rw [same, ← size] at built
  exact ⟨piece, found, piece_new_fresh _ _ _ _ piece built⟩

omit began

inductive Phase (start : PieceManager) : Exchange → Prop where
  | opened (manager : DownloadManager) (same : manager.pieceManager = start)
      (registered : manager.peers.lookup peer.ip = some (peer.sender, none)) :
      Phase start ⟨manager, [.receivedBitfield peer.bitfield, .peerUnchoked], [], false⟩
  | announced (manager : DownloadManager) (same : manager.pieceManager = start)
      (registered : manager.peers.lookup peer.ip = some (peer.sender, some peer.bitfield)) :
      Phase start ⟨manager, [.peerUnchoked], [], false⟩
  | asked (manager : DownloadManager) (now : Nat)
      (pieces : manager.pieceManager.pieces = modify start.pieces 0 fun piece =>
        piece.requestFromPeer 0 peer.ip now) :
      Phase start ⟨manager, [], [(0, 0, UInt32.ofNat (peer.content 0).length)], false⟩
  | answered (manager : DownloadManager) (now : Nat)
      (pieces : manager.pieceManager.pieces = modify start.pieces 0 fun piece =>
        piece.requestFromPeer 0 peer.ip now) :
      Phase start ⟨manager, [.receivedPiece 0 0 (peer.content 0)], [], false⟩
  | done (manager : DownloadManager)
      (complete : manager.pieceManager.isDownloadComplete = true) :
      Phase start ⟨manager, [], [], true⟩

include began

theorem unchoke_asks (single : hashCount torrent.info = 1) (seeds : Seeds sha1 peer torrent.info)
    (whole : (peer.content 0).length ≤ blockSize.toNat) (positive : 0 < (peer.content 0).length)
    (choice : Choice) (manager : DownloadManager) (same : manager.pieceManager = start.pieceManager)
    (registered : manager.peers.lookup peer.ip = some (peer.sender, some peer.bitfield)) :
    handleUnchoke choice manager peer.ip =
      (withPiece manager 0 fun piece => piece.requestFromPeer 0 peer.ip choice.now,
        [.sent peer.sender (.requestBlock 0 0 (UInt32.ofNat (peer.content 0).length))
          (choice.connected peer.sender)]) := by
  obtain ⟨⟨first, held, fresh⟩, only⟩ := start_single sha1 peer torrent blockSize start began single
    seeds
  rcases unchoke_cases choice manager peer.ip with
    ⟨-, nothing⟩ | ⟨index, piece, offset, block, found, needed, there, lacking, -, -, asked⟩
  -- The peer has piece zero and its block is missing, so something is found to request.
  · have available := available_pieces_stored manager peer.ip peer.sender peer.bitfield registered
    have listed : (0 : UInt32) ∈ bitfieldPieces peer.bitfield := seeds.announces 0 (by omega)
    have wanted : (manager.pieceManager.getNextPieceToDownload
        (bitfieldPieces peer.bitfield)).isSome = true := by
      rw [PieceManager.getNextPieceToDownload, List.find?_isSome]
      exact ⟨0, listed, by simp [same, held, fresh.state]⟩
    obtain ⟨index, next⟩ := Option.isSome_iff_exists.mp wanted
    obtain ⟨piece, found, -⟩ := next_piece_needed _ _ index next
    rw [same] at found
    obtain rfl := only index piece found
    obtain ⟨block, there⟩ := fresh.tiled.covers 0 (by rwa [fresh.length]) (Nat.zero_mod _)
    have lacking : block.isComplete = false := by
      simp [Block.isComplete, fresh.missing 0 block there]
    obtain ⟨entry, some_block⟩ := next_block_exists choice.blockOrder manager.pieceManager 0 0
      first block (by rw [same, held]) there lacking
    rw [nothing 0 (by rw [available, next])] at some_block
    cases some_block
  · rw [same] at found
    obtain rfl := only index piece found
    obtain rfl := Option.some.inj (held.symm.trans found)
    obtain ⟨rfl, size⟩ := single_block 0 _ _ blockSize first fresh whole offset block there
    rw [asked, size, sendToPeer]
    simp only [withPiece, registered]
    rfl

theorem answer_completes (single : hashCount torrent.info = 1)
    (seeds : Seeds sha1 peer torrent.info) (whole : (peer.content 0).length ≤ blockSize.toNat)
    (positive : 0 < (peer.content 0).length) (choice : Choice) (manager after : DownloadManager)
    (now : Nat) (actions : List Action)
    (pieces : manager.pieceManager.pieces = modify start.pieceManager.pieces 0 fun piece =>
      piece.requestFromPeer 0 peer.ip now)
    (handled : Recieved sha1 choice manager 0 0 (peer.content 0) after actions) :
    after.pieceManager.isDownloadComplete = true := by
  obtain ⟨⟨first, held, fresh⟩, only⟩ := start_single sha1 peer torrent blockSize start began single
    seeds
  have verified := single_block_verified sha1 peer 0 (peer.content 0) blockSize first fresh
    positive whole now
  have asked : manager.pieceManager.pieces.lookup 0 =
      some (first.requestFromPeer 0 peer.ip now) := by
    rw [pieces, lookup_modify_self, held, Option.map_some]
  have keys : ∀ key piece, manager.pieceManager.pieces.lookup key = some piece → key = 0 := by
    intro key piece found
    rw [pieces] at found
    rcases lookup_modify_some _ _ _ _ _ found with ⟨rfl, -⟩ | ⟨-, same⟩
    · rfl
    · exact only key piece same
  have stored : ∀ key piece, (withBlock sha1 manager 0 0
      (peer.content 0)).pieceManager.pieces.lookup key = some piece →
        key = 0 ∧ piece.isComplete = true := by
    intro key piece found
    rcases lookup_modify_some _ _ _ _ _ found with ⟨rfl, old, present, rfl⟩ | ⟨apart, same⟩
    · obtain rfl := Option.some.inj (asked.symm.trans present)
      exact ⟨rfl, by simp [Piece.isComplete, verified]⟩
    · exact absurd (keys key piece same) apart
  rw [PieceManager.isDownloadComplete, all_values_iff]
  intro key piece found
  cases handled with
  | unknown absent =>
      rw [asked] at absent
      cases absent
  | kept | failed => exact (stored key piece found).2
  | wrote =>
      rcases lookup_modify_some _ _ _ _ _ found with ⟨rfl, old, -, rfl⟩ | ⟨-, same⟩
      · rfl
      · exact (stored key piece same).2

theorem phase_move (single : hashCount torrent.info = 1) (seeds : Seeds sha1 peer torrent.info)
    (whole : (peer.content 0).length ≤ blockSize.toNat) (positive : 0 < (peer.content 0).length)
    (state after : Exchange) (next : Move) (actions : List Action)
    (phase : Phase peer start.pieceManager state)
    (moved : move sha1 peer state next = some (after, actions)) :
    Phase peer start.pieceManager after := by
  obtain ⟨⟨first, held, fresh⟩, only⟩ := start_single sha1 peer torrent blockSize start began single
    seeds
  have waiting : ∀ manager : DownloadManager, manager.pieceManager = start.pieceManager →
      manager.pieceManager.isDownloadComplete = false := by
    intro manager same
    rw [same]
    exact incomplete_piece _ 0 first held (start_missing torrent blockSize start began 0 first held)
  cases next with
  | handle choice =>
      obtain ⟨going, connected, event, rest, taken, rfl⟩ :=
        handle_taken sha1 peer state after choice actions moved
      cases phase with
      -- There is an event to take in three of the phases, each leading to the next one.
      | asked | done => cases taken
      | opened manager same registered =>
          obtain ⟨rfl, rfl⟩ := List.cons.inj taken
          obtain ⟨stored, quiet⟩ := bitfield_handled peer choice manager
          have later := waiting (recordBitfield peer manager) same
          simp only [handle_event_bitfield, stored, quiet, later]
          apply Phase.announced (recordBitfield peer manager) same
          simp [recordBitfield, lookup_modify_self, registered]
      | announced manager same registered =>
          obtain ⟨rfl, rfl⟩ := List.cons.inj taken
          have asked := unchoke_asks sha1 peer torrent blockSize start began single seeds whole
            positive choice manager same registered
          have later : (withPiece manager 0 fun piece => piece.requestFromPeer 0 peer.ip
              choice.now).pieceManager.isDownloadComplete = false := by
            refine incomplete_piece _ 0 (first.requestFromPeer 0 peer.ip choice.now) ?_
              (start_missing torrent blockSize start began 0 first held)
            rw [withPiece, lookup_modify_self, same, held, Option.map_some]
          simp only [handle_event_unchoked, asked, later]
          apply Phase.asked _ choice.now
          rw [← same]
          rfl
      | answered manager now pieces =>
          obtain ⟨rfl, rfl⟩ := List.cons.inj taken
          have handled := handle_recieved sha1 choice manager 0 0 (peer.content 0)
          have complete := answer_completes sha1 peer torrent blockSize start began single seeds
            whole positive choice manager _ now _ pieces handled
          have silent := no_requests sha1 choice _ _ _ _ _ _ handled
          simp only [handle_event_piece, UInt32.toNat_zero, silent, complete]
          exact .done _ complete
  | answer position =>
      simp only [move] at moved
      cases phase with
      | opened | announced | answered | done => simp at moved
      | asked manager now pieces =>
          -- The only open request is the first.
          cases position with
          | succ position => simp at moved
          | zero =>
              have size := fresh.tiled.narrow
              rw [fresh.length] at size
              have bytes : answerTo peer (0, 0, UInt32.ofNat (peer.content 0).length) =
                  .receivedPiece 0 0 (peer.content 0) := by
                rw [answerTo, UInt32.toNat_ofNat', Nat.mod_eq_of_lt size]
                simp [ByteImage.slice]
              have same := (Prod.mk.inj (Option.some.inj moved)).1
              rw [← same, bytes]
              exact .answered manager now pieces

theorem flows (disk : Bool) (seeds : Seeds sha1 peer torrent.info)
    (few : SingleBlock torrent.info blockSize) : NoStall sha1 peer start disk := by
  intro state reached silent answered
  rcases few with none | ⟨single, positive, whole⟩
  · -- Without a piece every state is complete.
    have empty := reaches_invariant (exchange sha1 peer)
      (fun state => ∀ key, (state.manager.pieceManager.pieces.lookup key).isSome = false) ?_
      _ state ?_ reached
    · rw [PieceManager.isDownloadComplete, all_values_iff]
      intro key piece found
      have absent := empty key
      rw [found] at absent
      cases absent
    · intro state next after actions before moved key
      cases next with
      | handle choice =>
          obtain ⟨-, -, event, rest, -, rfl⟩ := handle_taken sha1 peer state after choice actions
            moved
          exact (step_keys sha1 _ _ _ _ (perform_step sha1 state.manager
            (.event event peer.ip choice)) key).trans (before key)
      | answer position =>
          simp only [exchange, move] at moved
          split at moved
          · cases moved
          · obtain ⟨rfl, -⟩ := Prod.mk.inj (Option.some.inj moved)
            exact before key
    · intro key
      rw [Bool.eq_false_iff]
      intro there
      obtain ⟨piece, found⟩ := Option.isSome_iff_exists.mp there
      obtain ⟨i, hash, less, -⟩ := manager_new_from torrent blockSize _
        (new_piece_manager torrent blockSize start began) key piece found
      omega
  · have size : (peer.content 0).length = torrent.info.pieceLength := seeds.lengths 0 (by omega)
    have phase := reaches_invariant (exchange sha1 peer) (Phase peer start.pieceManager)
      (fun state next after actions phase moved =>
        phase_move sha1 peer torrent blockSize start began single seeds (by omega) (by omega)
          state after next actions phase moved)
      (opening peer start disk) state
      (.opened (opening peer start disk).manager rfl (AList.lookup_insert _)) reached
    cases phase with
    | opened | announced | answered => cases silent
    | asked => cases answered
    | done manager complete => exact complete

/-- The exchange falls silent only with the download complete exactly when the whole
torrent is at most one block. -/
theorem no_stall_iff (disk : Bool) (seeds : Seeds sha1 peer torrent.info) :
    NoStall sha1 peer start disk ↔ SingleBlock torrent.info blockSize := by
  constructor
  · intro flowing
    by_contra more
    exact stalls sha1 peer torrent blockSize start began disk more flowing
  · exact flows sha1 peer torrent blockSize start began disk seeds

end Flow

def zeroPeer : Peer :=
  { ip := Vector.replicate 6 0, sender := 0, bitfield := [128], content := fun _ => [0, 0, 0, 0] }

theorem zero_peer_seeds : Seeds zeroHash zeroPeer oneBlock.info := by
  have only : hashCount oneBlock.info = 1 := by decide
  refine ⟨?_, ?_, ?_⟩ <;> intro i less <;> obtain rfl : i = 0 := by omega
  · decide
  · rfl
  · decide

theorem no_stall_one :
    NoStall zeroHash zeroPeer ((DownloadManager.new oneBlock 4).get (by decide)) true ↔
      SingleBlock oneBlock.info 4 :=
  no_stall_iff zeroHash zeroPeer oneBlock 4 ((DownloadManager.new oneBlock 4).get (by decide))
    (Option.some_get _).symm true zero_peer_seeds

/-- With the same piece cut into two blocks, the second is never asked for. -/
theorem two_blocks_stall : Seeds zeroHash zeroPeer oneBlock.info ∧
    ¬ NoStall zeroHash zeroPeer ((DownloadManager.new oneBlock 2).get (by decide)) true :=
  ⟨zero_peer_seeds, stalls zeroHash zeroPeer oneBlock 2
    ((DownloadManager.new oneBlock 2).get (by decide)) (Option.some_get _).symm true
    (by unfold SingleBlock; decide)⟩

end MotteSeed.SinglePeer
