import MotteSeed.PieceStates
import MotteSeed.Requests

/-! What an unchoke asks for. The pieces of a stored bitfield come in ascending order,
so the first needed one is the lowest; a needed piece has a block that is still
lacking, and that block is requested and nothing else changes. -/
namespace MotteSeed.Unchoke
open Toolkit Toolkit.HashTable Toolkit.Runs Toolkit.Tiling Toolkit.Bitfield PeerWire
  PeerConnection TorrentMeta PieceStore PieceShape PieceInvariant Downloads DownloadSafety
  Persistence Availability Requests PieceCalls PieceStates

section Selection

theorem word_positions (bitfield : Bytes) (short : bitfield.length < 2 ^ 29) (position : Nat)
    (held : bit bitfield position = true) : (UInt32.ofNat position).toNat = position := by
  have inside := bit_inside bitfield position held
  rw [UInt32.toNat_ofNat', Nat.mod_eq_of_lt (by omega)]

theorem mem_short_bitfield (bitfield : Bytes) (short : bitfield.length < 2 ^ 29)
    (index : UInt32) : index ∈ bitfieldPieces bitfield ↔ bit bitfield index.toNat = true := by
  rw [mem_bitfield_pieces]
  constructor
  · rintro ⟨position, held, rfl⟩
    rwa [word_positions bitfield short position held]
  · intro held
    exact ⟨index.toNat, held, UInt32.ofNat_toNat⟩

theorem indexed_ascending (bytes : Bytes) :
    bytes.zipIdx.Pairwise fun first second => first.2 < second.2 := by
  apply List.pairwise_map.mp
  rw [List.zipIdx_map_snd]
  exact List.pairwise_lt_range'

theorem word_lt (first second : Nat) (less : first < second) (narrow : second < 2 ^ 32) :
    UInt32.ofNat first < UInt32.ofNat second := by
  rw [UInt32.lt_iff_toNat_lt, UInt32.toNat_ofNat', UInt32.toNat_ofNat', Nat.mod_eq_of_lt narrow,
    Nat.mod_eq_of_lt (by omega)]
  exact less

def rowPieces (entry : UInt8 × Nat) : List UInt32 :=
  (List.range 8).filterMap fun bitIndex =>
    if entry.1 &&& (1 <<< UInt8.ofNat (7 - bitIndex)) ≠ 0 then
      some (UInt32.ofNat (entry.2 * 8 + bitIndex))
    else none

theorem bitfield_pieces_rows (bitfield : Bytes) :
    bitfieldPieces bitfield = bitfield.zipIdx.flatMap rowPieces := rfl

theorem row_pieces_mem (entry : UInt8 × Nat) (index : UInt32) (member : index ∈ rowPieces entry) :
    ∃ bitIndex < 8, index = UInt32.ofNat (entry.2 * 8 + bitIndex) := by
  obtain ⟨bitIndex, small, chosen⟩ := List.mem_filterMap.mp member
  rw [Option.ite_none_right_eq_some] at chosen
  exact ⟨bitIndex, List.mem_range.mp small, (Option.some.inj chosen.2).symm⟩

theorem row_pieces_ascending (entry : UInt8 × Nat) (room : entry.2 < 2 ^ 29) :
    (rowPieces entry).Pairwise (· < ·) := by
  apply List.pairwise_filterMap.mpr
  apply List.Pairwise.imp_of_mem _ List.pairwise_lt_range
  intro first second _ small less one chosen two also
  rw [Option.ite_none_right_eq_some] at chosen also
  rw [← Option.some.inj chosen.2, ← Option.some.inj also.2]
  have bound := List.mem_range.mp small
  exact word_lt _ _ (by omega) (by omega)

theorem bitfield_pieces_ascending (bitfield : Bytes) (short : bitfield.length < 2 ^ 29) :
    (bitfieldPieces bitfield).Pairwise (· < ·) := by
  have small : ∀ entry ∈ bitfield.zipIdx, entry.2 < bitfield.length := by
    rintro ⟨byte, row⟩ member
    exact (List.getElem?_eq_some_iff.mp (List.mk_mem_zipIdx_iff_getElem?.mp member)).1
  rw [bitfield_pieces_rows, List.pairwise_flatMap]
  constructor
  · intro entry member
    exact row_pieces_ascending entry (Nat.lt_trans (small entry member) short)
  · apply List.Pairwise.imp_of_mem _ (indexed_ascending bitfield)
    intro first second _ member less one chosen two also
    obtain ⟨low, lowSmall, rfl⟩ := row_pieces_mem first one chosen
    obtain ⟨high, highSmall, rfl⟩ := row_pieces_mem second two also
    have bound := small second member
    exact word_lt _ _ (by omega) (by omega)

def Needed (manager : PieceManager) (index : UInt32) : Prop :=
  ∃ piece, manager.pieces.lookup index = some piece ∧ piece.isComplete = false

theorem open_state_iff (piece : Piece) :
    (piece.state = .missing ∨ piece.state = .incomplete) ↔ piece.isComplete = false := by
  cases state : piece.state <;> simp [Piece.isComplete, state]

def isNeeded (manager : PieceManager) (index : UInt32) : Bool :=
  match manager.pieces.lookup index with
  | some piece => piece.state = .missing ∨ piece.state = .incomplete
  | none => false

theorem is_needed_iff (manager : PieceManager) (index : UInt32) :
    isNeeded manager index = true ↔ Needed manager index := by
  unfold isNeeded Needed
  cases found : manager.pieces.lookup index with
  | none => simp
  | some piece => simp [← open_state_iff piece]

theorem next_piece_eq (manager : PieceManager) (available : List UInt32) :
    manager.getNextPieceToDownload available = available.find? (isNeeded manager) := rfl

theorem next_piece_lowest (manager : PieceManager) (available : List UInt32)
    (ascending : available.Pairwise (· < ·)) (index other : UInt32)
    (next : manager.getNextPieceToDownload available = some index)
    (member : other ∈ available) (needed : Needed manager other) : index ≤ other := by
  rw [next_piece_eq] at next
  obtain ⟨-, before, after, rfl, passed⟩ := List.find?_eq_some_iff_append.mp next
  rcases List.mem_append.mp member with earlier | later
  · have skipped := passed other earlier
    rw [(is_needed_iff manager other).mpr needed] at skipped
    cases skipped
  · rcases List.mem_cons.mp later with rfl | behind
    · exact UInt32.le_refl other
    · have tail := (List.pairwise_append.mp ascending).2.1
      exact UInt32.le_of_lt ((List.pairwise_cons.mp tail).1 other behind)

theorem next_piece_isSome (manager : PieceManager) (available : List UInt32) (index : UInt32)
    (member : index ∈ available) (needed : Needed manager index) :
    ∃ first, manager.getNextPieceToDownload available = some first := by
  rw [next_piece_eq, ← Option.isSome_iff_exists, List.find?_isSome]
  exact ⟨index, member, (is_needed_iff manager index).mpr needed⟩

end Selection

section Records

variable (sha1 : Bytes → Hash)

def ShortBitfield : Call → Prop
  | .event (.receivedBitfield bitfield) _ _ => bitfield.length < 2 ^ 29
  | _ => True

def ShortRecords (peers : Peers) : Prop :=
  ∀ peerIp sender bitfield, peers.lookup peerIp = some (sender, some bitfield) →
    bitfield.length < 2 ^ 29

theorem mark_available_length (pieceIndex : UInt32) (bitfield : Bytes) :
    (markAvailable pieceIndex bitfield).length = bitfield.length := by
  rw [mark_available_eq]
  split
  · exact mark_length bitfield _
  · rfl

theorem erase_short (peers : Peers) (peerIp : PeerIp) (short : ShortRecords peers) :
    ShortRecords (peers.erase peerIp) := by
  intro other sender bitfield found
  by_cases same : other = peerIp
  · subst same
    rw [AList.lookup_erase] at found
    cases found
  · rw [AList.lookup_erase_ne same] at found
    exact short other sender bitfield found

theorem peers_after_short (peers : Peers) (event : PeerEvent) (peerIp : PeerIp)
    (choice : Choice) (brief : ShortBitfield (.event event peerIp choice))
    (short : ShortRecords peers) : ShortRecords (peersAfter peers event peerIp) := by
  cases event with
  | receivedBitfield bytes =>
      intro other sender bitfield found
      rcases lookup_modify_some _ _ _ _ _ found with ⟨-, old, -, same⟩ | ⟨-, same⟩
      · cases same
        exact brief
      · exact short other sender bitfield same
  | receivedHave pieceIndex =>
      intro other sender bitfield found
      rcases lookup_modify_some _ _ _ _ _ found with ⟨rfl, old, present, same⟩ | ⟨-, same⟩
      · obtain ⟨first, record⟩ := old
        obtain ⟨bytes, rfl, marked⟩ := Option.map_eq_some_iff.mp (congrArg Prod.snd same).symm
        rw [← marked, mark_available_length]
        exact short other first bytes present
      · exact short other sender bitfield same
  | peerDisconnected => exact erase_short peers peerIp short
  | peerChoked | peerUnchoked | peerInterested | peerNotInterested | requestedBlock
  | receivedPiece | downloadRate => exact short

theorem perform_short (manager : DownloadManager) (call : Call) (brief : ShortBitfield call)
    (short : ShortRecords manager.peers) :
    ShortRecords (perform sha1 manager call).1.peers := by
  cases call with
  | setDiskIo => exact short
  | removePeer peerIp => exact erase_short manager.peers peerIp short
  | addPeer peerIp sender =>
      intro other otherSender bitfield found
      by_cases same : other = peerIp
      · subst same
        rw [show (perform sha1 manager (.addPeer other sender)).1.peers.lookup other =
          some (sender, none) from AList.lookup_insert _] at found
        cases found
      · exact short other otherSender bitfield ((AList.lookup_insert_ne same).symm.trans found)
  | event event peerIp choice =>
      rw [perform, handle_event_peers]
      exact peers_after_short manager.peers event peerIp choice brief short

theorem run_short (torrent : Torrent) (blockSize : UInt32) (start finish : DownloadManager)
    (calls : List Call) (log : List Action)
    (began : DownloadManager.new torrent blockSize = some start)
    (brief : ∀ call ∈ calls, ShortBitfield call)
    (ran : run (downloads sha1) start calls = some (finish, log)) : ShortRecords finish.peers := by
  refine run_performed sha1 start calls (fun _ manager _ => ShortRecords manager.peers)
    ?_ ?_ calls (List.prefix_refl calls) finish log ran
  · intro peerIp sender bitfield found
    rw [start_unregistered torrent blockSize start began] at found
    cases found
  · intro past call manager _ inside _ short
    exact perform_short sha1 manager call
      (brief call (inside.subset (List.mem_append_right past List.mem_cons_self))) short

end Records

section Requests

variable (sha1 : Bytes → Hash)

def Offers (manager : DownloadManager) (peerIp : PeerIp) (index : UInt32) : Prop :=
  ∃ sender bitfield, manager.peers.lookup peerIp = some (sender, some bitfield) ∧
    bit bitfield index.toNat = true ∧ Needed manager.pieceManager index

theorem offers_iff (manager : DownloadManager) (short : ShortRecords manager.peers)
    (peerIp : PeerIp) (index : UInt32) :
    Offers manager peerIp index ↔
      index ∈ getPeerAvailablePieces manager peerIp ∧ Needed manager.pieceManager index := by
  unfold Offers getPeerAvailablePieces
  cases present : manager.peers.lookup peerIp with
  | none => simp
  | some peer =>
      obtain ⟨sender, record⟩ := peer
      cases record with
      | none => simp
      | some bitfield =>
          simp only [mem_short_bitfield bitfield (short peerIp sender bitfield present)]
          constructor
          · rintro ⟨other, bytes, same, held, needed⟩
            cases same
            exact ⟨held, needed⟩
          · rintro ⟨held, needed⟩
            exact ⟨sender, bitfield, rfl, held, needed⟩

theorem available_ascending (manager : DownloadManager) (short : ShortRecords manager.peers)
    (peerIp : PeerIp) : (getPeerAvailablePieces manager peerIp).Pairwise (· < ·) := by
  unfold getPeerAvailablePieces
  split
  · rename_i sender bitfield present
    exact bitfield_pieces_ascending bitfield (short peerIp sender bitfield present)
  · exact List.Pairwise.nil
  · exact List.Pairwise.nil

/-- One block now waits for this peer, and nothing else is different. -/
structure OnlyRequested (before after : DownloadManager) (index : UInt32) (piece : Piece)
    (offset : Nat) (block : Block) (peerIp : PeerIp) (now : Nat) : Prop where
  piece : ∃ blocks, after.pieceManager.pieces.lookup index = some { piece with blocks := blocks } ∧
    blocks.lookup offset = some { block with state := .requested peerIp now } ∧
    ∀ other, other ≠ offset → blocks.lookup other = piece.blocks.lookup other
  others : ∀ key, key ≠ index →
    after.pieceManager.pieces.lookup key = before.pieceManager.pieces.lookup key
  peers : after.peers = before.peers
  diskIo : after.diskIo = before.diskIo

theorem request_only (manager : DownloadManager) (index : UInt32) (piece : Piece) (offset : Nat)
    (block : Block) (peerIp : PeerIp) (now : Nat)
    (found : manager.pieceManager.pieces.lookup index = some piece)
    (there : piece.blocks.lookup offset = some block) :
    OnlyRequested manager
      (withPiece manager index fun piece => piece.requestFromPeer offset peerIp now) index piece
      offset block peerIp now := by
  refine ⟨⟨(piece.requestFromPeer offset peerIp now).blocks,
    with_piece_found manager index _ piece found, ?_, ?_⟩, ?_, rfl, rfl⟩
  · simp only [Piece.requestFromPeer, lookup_modify_self, there, Option.map_some]
    rfl
  · exact fun other different => lookup_modify_ne _ _ _ _ different
  · exact fun key different => lookup_modify_ne _ _ _ _ different

/-- The request of an unchoke: the lowest piece the peer offers, one of its lacking blocks
with its whole offset and length, sent to this peer alone. -/
structure Asks (choice : Choice) (manager : DownloadManager) (peerIp : PeerIp)
    (index begin length : UInt32) : Prop where
  lowest : Offers manager peerIp index ∧ ∀ other, Offers manager peerIp other → index ≤ other
  sent : ∃ sender record, manager.peers.lookup peerIp = some (sender, record) ∧
    (handleUnchoke choice manager peerIp).2 =
      [.sent sender (.requestBlock index begin length) (choice.connected sender)]
  block : ∃ piece block, manager.pieceManager.pieces.lookup index = some piece ∧
    piece.blocks.lookup begin.toNat = some block ∧ block.isComplete = false ∧
    block.offset = begin.toNat ∧ block.length = length ∧
    length.toNat = tile piece.blockSize.toNat piece.length begin.toNat ∧
    OnlyRequested manager (handleUnchoke choice manager peerIp).1 index piece begin.toNat block
      peerIp choice.now

theorem unchoke_asks (choice : Choice) (manager : DownloadManager)
    (short : ShortRecords manager.peers) (peerIp : PeerIp)
    (lacks : ∀ key piece, manager.pieceManager.pieces.lookup key = some piece →
      Tiled piece ∧ (piece.isComplete = false →
        ∃ offset block, piece.blocks.lookup offset = some block ∧ block.isComplete = false)) :
    ((∃ index, Offers manager peerIp index) →
      ∃ index begin length, Asks choice manager peerIp index begin length) ∧
    ((¬ ∃ index, Offers manager peerIp index) →
      handleUnchoke choice manager peerIp = (manager, [])) := by
  rcases unchoke_cases choice manager peerIp with ⟨idle, none_next⟩ | ⟨index, piece, offset, block,
    found, needed, there, lacking, next, picked, asked⟩
  · refine ⟨?_, fun _ => idle⟩
    -- A piece on offer is selected, and a selected piece has a block to request.
    rintro ⟨index, offers⟩
    obtain ⟨member, wanted⟩ := (offers_iff manager short peerIp index).mp offers
    obtain ⟨first, selected⟩ := next_piece_isSome _ _ index member wanted
    obtain ⟨piece, found, needed⟩ := next_piece_needed _ _ first selected
    obtain ⟨offset, block, there, lacking⟩ := (lacks first piece found).2 needed
    obtain ⟨entry, picked⟩ := next_block_exists choice.blockOrder _ first offset piece block found
      there lacking
    rw [none_next first selected] at picked
    cases picked
  · have member : index ∈ getPeerAvailablePieces manager peerIp :=
      List.mem_of_find?_eq_some ((next_piece_eq _ _).symm.trans next)
    have offers := (offers_iff manager short peerIp index).mpr ⟨member, piece, found, needed⟩
    refine ⟨fun _ => ?_, fun none_offered => absurd ⟨index, offers⟩ none_offered⟩
    obtain ⟨tiled, -⟩ := lacks index piece found
    obtain ⟨inside, multiple, same_index, start, length⟩ := tiled.entry offset block there
    have narrow := tiled.narrow
    have exact_offset : (UInt32.ofNat offset).toNat = offset := by
      rw [UInt32.toNat_ofNat', Nat.mod_eq_of_lt (by omega)]
    refine ⟨index, UInt32.ofNat offset, block.length, ⟨offers, ?_⟩, ?_, ?_⟩
    · intro other also
      obtain ⟨available, wanted⟩ := (offers_iff manager short peerIp other).mp also
      exact next_piece_lowest _ _ (available_ascending manager short peerIp) index other next
        available wanted
    · obtain ⟨sender, record, present, -⟩ := offers
      refine ⟨sender, some record, present, ?_⟩
      rw [asked]
      simp only [sendToPeer, withPiece, present, sendCommand]
    · rw [asked, exact_offset]
      exact ⟨piece, block, found, there, lacking, start, rfl, length,
        request_only manager index piece offset block peerIp choice.now found there⟩

/-- An unchoke by a peer on offer asks it for one block, and any other unchoke does nothing. -/
theorem unchoke_requests (torrent : Torrent) (blockSize : UInt32)
    (positive : 0 < torrent.info.pieceLength) (start finish : DownloadManager)
    (calls : List Call) (log : List Action)
    (began : DownloadManager.new torrent blockSize = some start)
    (brief : ∀ call ∈ calls, ShortBitfield call)
    (ran : run (downloads sha1) start calls = some (finish, log)) (peerIp : PeerIp)
    (choice : Choice) :
    ((∃ index, Offers finish peerIp index) →
      ∃ index begin length, Asks choice finish peerIp index begin length) ∧
    ((¬ ∃ index, Offers finish peerIp index) →
      handleUnchoke choice finish peerIp = (finish, [])) := by
  have short := run_short sha1 torrent blockSize start finish calls log began brief ran
  apply unchoke_asks choice finish short peerIp
  intro key piece found
  have settled := run_piece_settled sha1 torrent blockSize start finish calls log began ran key
    piece found
  have length := (run_dimensions sha1 torrent blockSize start finish calls log began ran key piece
    found).1
  exact ⟨settled.tiled, incomplete_lacks sha1 piece settled (by omega)⟩

theorem unchoke_requests_once : ∃ finish log,
    run (downloads zeroHash) oneBlockManager askedOnce = some (finish, log) ∧
      (((∃ index, Offers finish default index) →
        ∃ index begin length, Asks default finish default index begin length) ∧
      ((¬ ∃ index, Offers finish default index) →
        handleUnchoke default finish default = (finish, []))) :=
  ⟨_, _, rfl, unchoke_requests zeroHash oneBlock 4 (by decide) oneBlockManager _ askedOnce _
    (Option.some_get _).symm (by simp [askedOnce, ShortBitfield]) rfl default default⟩

end Requests

end MotteSeed.Unchoke
