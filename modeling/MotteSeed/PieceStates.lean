import MotteSeed.PieceCalls
import MotteSeed.Persistence
import MotteSeed.Availability

/-! The state of a piece against the states of its blocks, along runs of the download
manager: when a piece is complete, what its documented classification would need, and
what an event can do to a block that has arrived. -/
namespace MotteSeed.PieceStates
open Toolkit Toolkit.HashTable Toolkit.Runs Toolkit.Tiling PeerWire PeerConnection TorrentMeta
  PieceStore PieceShape PieceInvariant Downloads DownloadSafety Persistence
  Availability PieceCalls

variable (sha1 : Bytes → Hash)

theorem run_piece_settled (torrent : Torrent) (blockSize : UInt32)
    (start finish : DownloadManager) (calls : List Call) (log : List Action)
    (began : DownloadManager.new torrent blockSize = some start)
    (ran : run (downloads sha1) start calls = some (finish, log)) (key : UInt32) (piece : Piece)
    (found : finish.pieceManager.pieces.lookup key = some piece) : Settled sha1 piece := by
  obtain ⟨pieceCalls, replies, went⟩ := run_piece_calls sha1 start finish calls log ran
  exact run_settled sha1 torrent blockSize start.pieceManager finish.pieceManager pieceCalls
    replies (new_piece_manager torrent blockSize start began) went key piece found

theorem run_dimensions (torrent : Torrent) (blockSize : UInt32)
    (start finish : DownloadManager) (calls : List Call) (log : List Action)
    (began : DownloadManager.new torrent blockSize = some start)
    (ran : run (downloads sha1) start calls = some (finish, log)) (key : UInt32) (piece : Piece)
    (found : finish.pieceManager.pieces.lookup key = some piece) :
    piece.length = torrent.info.pieceLength ∧ piece.blockSize = blockSize := by
  obtain ⟨origin, there, same⟩ :=
    (run_descends sha1 torrent blockSize start finish calls log began ran key piece found).origin
  obtain ⟨i, hash, -, fresh⟩ := new_pieces_fresh torrent blockSize start began key origin there
  exact ⟨same.length.trans fresh.length, same.blockSize.trans fresh.blockSize⟩

section Completion

theorem incomplete_lacks (piece : Piece) (settled : Settled sha1 piece)
    (positive : 0 < piece.length) (needed : piece.isComplete = false) :
    ∃ offset block, piece.blocks.lookup offset = some block ∧ block.isComplete = false := by
  obtain ⟨first, start⟩ := settled.tiled.covers 0 positive (Nat.zero_mod _)
  by_contra full
  have all : AllReceived piece := by
    intro offset block found
    cases state : block.state with
    | received bytes => exact ⟨bytes, rfl⟩
    | written => exact absurd state (settled.unwritten offset block found)
    | missing | requested =>
        exact absurd ⟨offset, block, found, by simp [Block.isComplete, state]⟩ full
  rw [(settled.settled 0 first start all).1] at needed
  cases needed

/-- Complete means every block received, a complete piece has its data, and a piece with
every block received is neither missing nor incomplete. -/
theorem complete_iff_received (torrent : Torrent) (blockSize : UInt32)
    (positive : 0 < torrent.info.pieceLength) (start finish : DownloadManager)
    (calls : List Call) (log : List Action)
    (began : DownloadManager.new torrent blockSize = some start)
    (ran : run (downloads sha1) start calls = some (finish, log)) (key : UInt32) (piece : Piece)
    (found : finish.pieceManager.pieces.lookup key = some piece) :
    (piece.isComplete = true ↔ AllReceived piece) ∧
      (piece.state = .complete → ∃ data, piece.getPieceData = some data) ∧
        ¬ (AllReceived piece ∧ (piece.state = .missing ∨ piece.state = .incomplete)) := by
  have sound := run_sound sha1 torrent blockSize start finish calls log began ran key piece found
  have settled := run_piece_settled sha1 torrent blockSize start finish calls log began ran key
    piece found
  have length := (run_dimensions sha1 torrent blockSize start finish calls log began ran key piece
    found).1
  have complete : AllReceived piece → piece.isComplete = true := by
    intro all
    obtain ⟨first, there⟩ := sound.tiled.covers 0 (by omega) (Nat.zero_mod _)
    exact (settled.settled 0 first there all).1
  refine ⟨⟨complete_all_received sha1 piece sound, complete⟩,
    complete_has_data sha1 piece sound, ?_⟩
  rintro ⟨all, missing | incomplete⟩
  · simp [Piece.isComplete, missing] at complete
    exact complete all
  · simp [Piece.isComplete, incomplete] at complete
    exact complete all

theorem complete_iff_received_one :
    (oneBlockPiece.isComplete = true ↔ AllReceived oneBlockPiece) ∧
      (oneBlockPiece.state = .complete → ∃ data, oneBlockPiece.getPieceData = some data) ∧
        ¬ (AllReceived oneBlockPiece ∧
          (oneBlockPiece.state = .missing ∨ oneBlockPiece.state = .incomplete)) :=
  complete_iff_received zeroHash oneBlock 4 (by decide)
    oneBlockManager oneBlockWritten
    [.setDiskIo, deliver default 0 [1, 2, 3, 4]] [.wrotePiece 0 [1, 2, 3, 4] true]
    (Option.some_get _).symm rfl 0 oneBlockPiece (Option.some_get _).symm

end Completion

section Frame

def blockBytes (piece : Piece) (offset : Nat) : Option Bytes :=
  (piece.blocks.lookup offset).bind fun block =>
    match block.state with
    | .received bytes => some bytes
    | .missing | .requested _ _ | .written => none

def storedBytes (manager : DownloadManager) (key : UInt32) (offset : Nat) : Option Bytes :=
  (manager.pieceManager.pieces.lookup key).bind fun piece => blockBytes piece offset

structure Redelivers (event : PeerEvent) (key : UInt32) (offset : Nat) (block : Block)
    (data : Bytes) : Prop where
  names : ∃ begin, event = .receivedPiece key begin data ∧ begin.toNat = offset
  fits : UInt32.ofNat data.length = block.length

def FailsPiece (event : PeerEvent) (key : UInt32) (piece : Piece) : Prop :=
  ∃ begin data, event = .receivedPiece key begin data ∧
    AllReceived (withData piece begin.toNat data) ∧
      ∃ bytes, (withData piece begin.toNat data).hashedData = .data bytes ∧
        sha1 bytes ≠ piece.hash

theorem block_bytes_received (piece : Piece) (offset : Nat) (block : Block) (bytes : Bytes)
    (found : piece.blocks.lookup offset = some block) (received : block.state = .received bytes) :
    blockBytes piece offset = some bytes := by
  simp only [blockBytes, found, Option.bind_some, received]

theorem stored_bytes_found (manager : DownloadManager) (key : UInt32) (offset : Nat)
    (piece : Piece) (found : manager.pieceManager.pieces.lookup key = some piece) :
    storedBytes manager key offset = blockBytes piece offset := by
  rw [storedBytes, found, Option.bind_some]

theorem with_piece_found (manager : DownloadManager) (key : UInt32) (change : Piece → Piece)
    (piece : Piece) (found : manager.pieceManager.pieces.lookup key = some piece) :
    (withPiece manager key change).pieceManager.pieces.lookup key = some (change piece) := by
  simp only [withPiece, lookup_modify_self, found, Option.map_some]

theorem stored_bytes_other (manager : DownloadManager) (index key : UInt32)
    (change : Piece → Piece) (offset : Nat) (different : key ≠ index) :
    storedBytes (withPiece manager index change) key offset = storedBytes manager key offset := by
  simp only [storedBytes, withPiece, lookup_modify_ne _ _ _ _ different]

theorem with_data_bytes (piece : Piece) (target offset : Nat) (data bytes : Bytes)
    (block : Block) (found : piece.blocks.lookup offset = some block)
    (received : block.state = .received bytes) :
    blockBytes (withData piece target data) offset = some bytes ∨
      (target = offset ∧ UInt32.ofNat data.length = block.length ∧
        blockBytes (withData piece target data) offset = some data) := by
  by_cases here : target = offset
  · subst here
    have there := with_data_at piece target data block found
    by_cases fits : UInt32.ofNat data.length = block.length
    · rw [receive_data_fits block data fits] at there
      exact Or.inr ⟨rfl, fits, block_bytes_received _ target _ data there rfl⟩
    · rw [show block.receiveData data = block from if_neg fits] at there
      exact Or.inl (block_bytes_received _ target _ bytes there received)
  · have other := with_data_other piece target offset data (Ne.symm here)
    exact Or.inl (block_bytes_received _ offset block bytes (other.trans found) received)

theorem delivered_bytes (piece after : Piece) (tiled : Tiled piece) (target offset : Nat)
    (data bytes : Bytes) (block : Block) (found : piece.blocks.lookup offset = some block)
    (received : block.state = .received bytes)
    (delivered : Delivered sha1 piece target data after) :
    blockBytes after offset = some bytes ∨
      (target = offset ∧ UInt32.ofNat data.length = block.length ∧
        blockBytes after offset = some data) ∨
      (AllReceived (withData piece target data) ∧
        ∃ bytes, (withData piece target data).hashedData = .data bytes ∧
          sha1 bytes ≠ piece.hash) := by
  have stored := with_data_bytes piece target offset data bytes block found received
  cases delivered with
  | unknown => exact Or.inl (block_bytes_received piece offset block bytes found received)
  | partly | verified =>
      rcases stored with kept | replaced
      · exact Or.inl kept
      · exact Or.inr (Or.inl replaced)
  | rejected _ _ whole ended differs =>
      have shape := tiled_same_shape _ _ tiled (with_data_same_shape piece target data)
      exact Or.inr (Or.inr ⟨(hashed_data_iff _ shape).mp ⟨whole, ended⟩, whole, ended, differs⟩)

theorem step_bytes (manager after : DownloadManager) (call : Call) (actions : List Action)
    (step : Step sha1 manager call after actions) (event : PeerEvent) (peerIp : PeerIp)
    (choice : Choice) (same_call : call = .event event peerIp choice) (key : UInt32)
    (piece : Piece) (settled : Settled sha1 piece)
    (found : manager.pieceManager.pieces.lookup key = some piece) (offset : Nat) (block : Block)
    (there : piece.blocks.lookup offset = some block) (bytes : Bytes)
    (received : block.state = .received bytes) :
    storedBytes after key offset = some bytes ∨
      (∃ data, Redelivers event key offset block data ∧
        storedBytes after key offset = some data) ∨ FailsPiece sha1 event key piece := by
  have before : storedBytes manager key offset = some bytes := by
    rw [stored_bytes_found manager key offset piece found]
    exact block_bytes_received piece offset block bytes there received
  cases step with
  | quiet _ _ _ same =>
      left
      simpa only [storedBytes, same] using before
  | requested _ index old target asked peer now _ present needed inside lacking =>
      left
      by_cases here : key = index
      · subst here
        obtain rfl := Option.some.inj (found.symm.trans present)
        rw [stored_bytes_found _ key offset _ (with_piece_found manager key _ piece found)]
        -- The block that is requested was not there yet.
        have apart : offset ≠ target := by
          rintro rfl
          obtain rfl := Option.some.inj (there.symm.trans inside)
          simp [Block.isComplete, received] at lacking
        apply block_bytes_received _ offset block bytes _ received
        exact (lookup_modify_ne _ _ _ _ apart).trans there
      · rw [stored_bytes_other manager index key _ offset here, before]
  | recieved peer index begin data choice _ _ handled =>
      cases same_call
      by_cases here : key = index
      · subst here
        have outcome := delivered_bytes sha1 piece _ settled.tiled begin.toNat offset data bytes
          block there received
          (receive_block_outcome sha1 piece settled.tiled settled.unwritten begin.toNat data)
        have left_there : storedBytes after key offset =
            blockBytes (piece.receiveBlock sha1 begin.toNat data).1 offset := by
          have stored := with_piece_found manager key
            (fun piece => (piece.receiveBlock sha1 begin.toNat data).1) piece found
          cases handled with
          | unknown absent =>
              rw [found] at absent
              cases absent
          | kept | failed => exact stored_bytes_found _ key offset _ stored
          -- The mark of the piece does not touch its blocks.
          | wrote =>
              exact (stored_bytes_found _ key offset _
                (with_piece_found _ key Piece.maskWritten _ stored)).trans rfl
        rw [left_there]
        rcases outcome with kept | ⟨same, fits, replaced⟩ | ⟨all, failed⟩
        · exact Or.inl kept
        · exact Or.inr (Or.inl ⟨data, ⟨⟨begin, rfl, same⟩, fits⟩, replaced⟩)
        · exact Or.inr (Or.inr ⟨begin, data, rfl, all, failed⟩)
      · left
        cases handled with
        | unknown => exact before
        | kept | failed => exact (stored_bytes_other manager index key _ offset here).trans before
        | wrote =>
            exact ((stored_bytes_other _ index key _ offset here).trans
              (stored_bytes_other manager index key _ offset here)).trans before

/-- A block that has arrived keeps its bytes through every event, unless it is delivered
again or its piece fails verification. -/
theorem received_block_kept (torrent : Torrent) (blockSize : UInt32)
    (start finish : DownloadManager) (calls : List Call) (log : List Action)
    (began : DownloadManager.new torrent blockSize = some start)
    (ran : run (downloads sha1) start calls = some (finish, log)) (key : UInt32) (piece : Piece)
    (found : finish.pieceManager.pieces.lookup key = some piece)
    (offset : Nat) (block : Block) (bytes : Bytes)
    (there : piece.blocks.lookup offset = some block) (received : block.state = .received bytes)
    (event : PeerEvent) (peerIp : PeerIp) (choice : Choice) :
    storedBytes (handleEvent sha1 choice finish event peerIp).1 key offset = some bytes ∨
      (∃ data, Redelivers event key offset block data ∧
        storedBytes (handleEvent sha1 choice finish event peerIp).1 key offset = some data) ∨
      FailsPiece sha1 event key piece :=
  step_bytes sha1 finish _ _ _ (perform_step sha1 finish (.event event peerIp choice)) event
    peerIp choice rfl key piece
    (run_piece_settled sha1 torrent blockSize start finish calls log began ran key piece found)
    found offset block there bytes received

def twoBlocks : DownloadManager := (DownloadManager.new oneBlock 2).get (by decide)

def firstArrived : DownloadManager := (perform zeroHash twoBlocks (deliver default 0 [1, 2])).1

def firstPiece : Piece := (firstArrived.pieceManager.pieces.lookup 0).get (by decide)

def firstBlock : Block := (firstPiece.blocks.lookup 0).get (by decide)

theorem received_block_kept_first :
    storedBytes (handleEvent zeroHash default firstArrived .peerUnchoked
        (Vector.replicate 6 0)).1 0 0 = some [1, 2] ∨
      (∃ data, Redelivers .peerUnchoked 0 0 firstBlock data ∧
        storedBytes (handleEvent zeroHash default firstArrived .peerUnchoked
          (Vector.replicate 6 0)).1 0 0 = some data) ∨
      FailsPiece zeroHash .peerUnchoked 0 firstPiece :=
  received_block_kept zeroHash oneBlock 2 twoBlocks firstArrived [deliver default 0 [1, 2]] []
    (Option.some_get _).symm rfl 0 firstPiece (Option.some_get _).symm 0 firstBlock
    [1, 2] (Option.some_get _).symm (by decide) .peerUnchoked (Vector.replicate 6 0) default

/-- A second delivery of the first block replaces its bytes, with the other block missing. -/
theorem second_delivery_replaces :
    DownloadManager.new oneBlock 2 = some twoBlocks ∧
      run (downloads zeroHash) twoBlocks [deliver default 0 [1, 2]] = some (firstArrived, []) ∧
      firstPiece.isComplete = false ∧ storedBytes firstArrived 0 0 = some [1, 2] ∧
      storedBytes (handleEvent zeroHash default firstArrived (.receivedPiece 0 0 [3, 4])
        (Vector.replicate 6 0)).1 0 0 = some [3, 4] ∧
      ¬ FailsPiece zeroHash (.receivedPiece 0 0 [3, 4]) 0 firstPiece := by
  refine ⟨(Option.some_get _).symm, rfl, by decide, by decide, by decide, ?_⟩
  rintro ⟨begin, data, same, all, -⟩
  cases same
  obtain ⟨bytes, received⟩ := all 2 ((firstPiece.blocks.lookup 2).get (by decide)) (by decide)
  revert received
  exact BlockState.noConfusion

end Frame

section Classification

def Untouched (piece : Piece) : Prop :=
  ∀ offset block, piece.blocks.lookup offset = some block → block.isComplete = false

/-- Missing stands for no block received or written, incomplete for some but not all. -/
structure Classified (piece : Piece) : Prop where
  missing : piece.state = .missing ↔ Untouched piece
  incomplete : piece.state = .incomplete ↔
    (∃ offset block, piece.blocks.lookup offset = some block ∧ block.isComplete = true) ∧
      ∃ offset block, piece.blocks.lookup offset = some block ∧ block.isComplete = false

def AlwaysClassified (start : DownloadManager) (calls : List Call) : Prop :=
  ∀ past, past <+: calls → ∀ state log, run (downloads sha1) start past = some (state, log) →
    ∀ key piece, state.pieceManager.pieces.lookup key = some piece →
      (∃ offset block, piece.blocks.lookup offset = some block) → Classified piece

def Fits (pieces : HashMap UInt32 Piece) (call : Call) : Prop :=
  ∃ index begin data peerIp choice piece block,
    call = .event (.receivedPiece index begin data) peerIp choice ∧
      pieces.lookup index = some piece ∧ piece.blocks.lookup begin.toNat = some block ∧
        UInt32.ofNat data.length = block.length

theorem request_untouched (piece : Piece) (offset : Nat) (peerIp : PeerIp) (now : Nat)
    (untouched : Untouched piece) : Untouched (piece.requestFromPeer offset peerIp now) := by
  intro key block found
  rcases lookup_modify_some _ _ _ _ _ found with ⟨-, old, -, rfl⟩ | ⟨-, same⟩
  · rfl
  · exact untouched key block same

theorem untouched_lacks (piece : Piece) (untouched : Untouched piece) (offset : Nat)
    (block : Block) (present : piece.blocks.lookup offset = some block) : ¬ AllReceived piece := by
  intro all
  obtain ⟨bytes, received⟩ := all offset block present
  have lacks := untouched offset block present
  simp [Block.isComplete, received] at lacks

theorem refused_idle (piece after : Piece) (tiled : Tiled piece) (offset : Nat) (data : Bytes)
    (untouched : Untouched piece)
    (refused : ∀ block, piece.blocks.lookup offset = some block →
      UInt32.ofNat data.length ≠ block.length)
    (delivered : Delivered sha1 piece offset data after) : after = piece := by
  cases delivered with
  | unknown => rfl
  | partly block present =>
      exact with_data_refused piece offset data block present (Or.inl (refused block present))
  | verified block present bytes ended | rejected block present bytes ended =>
      rw [with_data_refused piece offset data block present (Or.inl (refused block present))]
        at ended
      have all := (hashed_data_iff piece tiled).mp ⟨bytes, ended⟩
      exact absurd all (untouched_lacks piece untouched offset block present)

theorem descends_fits (start : PieceManager) (key : UInt32) (piece : Piece)
    (descends : Descends sha1 start key piece) (offset : Nat) (block : Block)
    (present : piece.blocks.lookup offset = some block) :
    ∃ origin first, start.pieces.lookup key = some origin ∧
      origin.blocks.lookup offset = some first ∧ first.length = block.length := by
  obtain ⟨origin, there, same⟩ := descends.origin
  obtain ⟨first, began, shape⟩ := same_shape_block origin piece same offset block present
  exact ⟨origin, first, there, began, congrArg (fun shape => shape.2.2) shape⟩

theorem run_idle (torrent : Torrent) (blockSize : UInt32) (start finish : DownloadManager)
    (calls : List Call) (log : List Action)
    (began : DownloadManager.new torrent blockSize = some start)
    (apart : ∀ call ∈ calls, ¬ Fits start.pieceManager.pieces call)
    (ran : run (downloads sha1) start calls = some (finish, log)) (key : UInt32) (piece : Piece)
    (found : finish.pieceManager.pieces.lookup key = some piece) :
    piece.state = .missing ∧ Untouched piece := by
  refine run_descended sha1 (fun piece => piece.state = .missing ∧ Untouched piece) torrent
    blockSize start finish calls log began ?_ ?_ ?_ ?_ ran key piece found
  · intro key hash piece fresh
    refine ⟨fresh.state, fun offset block there => ?_⟩
    simp [Block.isComplete, fresh.missing offset block there]
  · rintro piece offset peerIp now ⟨state, untouched⟩
    exact ⟨state, request_untouched piece offset peerIp now untouched⟩
  · rintro key begin data peerIp choice piece after member descends ⟨state, untouched⟩ delivered
    rw [refused_idle sha1 piece after descends.sound.tiled begin.toNat data untouched ?_ delivered]
    · exact ⟨state, untouched⟩
    · intro block present fits
      obtain ⟨origin, first, there, first_there, length⟩ :=
        descends_fits sha1 _ key piece descends begin.toNat block present
      exact apart _ member ⟨key, begin, data, peerIp, choice, origin, first, rfl, there,
        first_there, fits.trans length.symm⟩
  · rintro piece data ⟨state, -⟩ ready
    have complete := data_complete piece data ready
    simp [Piece.isComplete, state] at complete

theorem run_never_incomplete (torrent : Torrent) (blockSize : UInt32)
    (start finish : DownloadManager) (calls : List Call) (log : List Action)
    (began : DownloadManager.new torrent blockSize = some start)
    (ran : run (downloads sha1) start calls = some (finish, log)) (key : UInt32) (piece : Piece)
    (found : finish.pieceManager.pieces.lookup key = some piece) : piece.state ≠ .incomplete := by
  refine run_descended sha1 (fun piece => piece.state ≠ .incomplete) torrent blockSize start finish
    calls log began ?_ (fun _ _ _ _ state => state) ?_ ?_ ran key piece found
  · intro key hash piece fresh
    rw [fresh.state]
    exact PieceState.noConfusion
  · intro key begin data peerIp choice piece after _ _ state delivered
    cases delivered with
    | unknown | partly => exact state
    | verified | rejected => exact PieceState.noConfusion
  · exact fun _ _ _ _ => PieceState.noConfusion

theorem idle_classified (piece : Piece) (state : piece.state = .missing)
    (untouched : Untouched piece) : Classified piece := by
  refine ⟨iff_of_true state untouched, ?_⟩
  rw [state]
  apply iff_of_false PieceState.noConfusion
  rintro ⟨⟨offset, block, found, done⟩, -⟩
  rw [untouched offset block found] at done
  cases done

theorem single_classified (piece : Piece) (sound : Sound sha1 piece)
    (settled : Settled sha1 piece) (never : piece.state ≠ .incomplete)
    (single : piece.length ≤ piece.blockSize.toNat) (offset : Nat) (block : Block)
    (there : piece.blocks.lookup offset = some block) : Classified piece := by
  have only : ∀ other entry, piece.blocks.lookup other = some entry → other = 0 := by
    intro other entry found
    obtain ⟨inside, multiple, -⟩ := sound.tiled.entry other entry found
    rwa [Nat.mod_eq_of_lt (by omega)] at multiple
  obtain rfl := only offset block there
  have alone : ∀ other entry, piece.blocks.lookup other = some entry → entry = block := by
    intro other entry found
    obtain rfl := only other entry found
    exact Option.some.inj (found.symm.trans there)
  have untouched_iff : Untouched piece ↔ block.isComplete = false := by
    constructor
    · exact fun untouched => untouched 0 block there
    · intro lacks other entry found
      rw [alone other entry found]
      exact lacks
  constructor
  · rw [untouched_iff]
    constructor
    · intro missing
      obtain ⟨other, entry, found, lacks⟩ := incomplete_lacks sha1 piece settled
        (Nat.lt_of_le_of_lt (Nat.zero_le 0) (sound.tiled.entry 0 block there).1)
        (by simp [Piece.isComplete, missing])
      rwa [alone other entry found] at lacks
    · intro lacks
      have needed : piece.isComplete ≠ true := by
        intro complete
        have all := complete_all_received sha1 piece sound complete
        exact untouched_lacks piece (untouched_iff.mpr lacks) 0 block there all
      cases state : piece.state with
      | missing => rfl
      | incomplete => exact absurd state never
      | complete | written => simp [Piece.isComplete, state] at needed
  · apply iff_of_false never
    rintro ⟨⟨first, done_entry, there, done⟩, other, entry, found, lacks⟩
    rw [alone other entry found] at lacks
    rw [alone first done_entry there, lacks] at done
    cases done

theorem first_fit_partly (piece : Piece) (sound : Sound sha1 piece) (untouched : Untouched piece)
    (large : piece.blockSize.toNat < piece.length) (offset : Nat) (block : Block) (data : Bytes)
    (present : piece.blocks.lookup offset = some block) :
    (piece.receiveBlock sha1 offset data).1 = withData piece offset data := by
  have positive := sound.tiled.positive (by omega)
  -- The first two blocks cannot both be the one that arrives.
  obtain ⟨other, entry, found, apart⟩ : ∃ other entry, piece.blocks.lookup other = some entry ∧
      other ≠ offset := by
    obtain ⟨first, start⟩ := sound.tiled.covers 0 (by omega) (Nat.zero_mod _)
    obtain ⟨second, next⟩ := sound.tiled.covers _ large (Nat.mod_self _)
    by_cases here : offset = 0
    · exact ⟨_, second, next, by omega⟩
    · exact ⟨0, first, start, Ne.symm here⟩
  have lacking : ¬ AllReceived (withData piece offset data) := by
    intro all
    have still := with_data_other piece offset other data apart
    obtain ⟨bytes, received⟩ := all other entry (still.trans found)
    have lacks := untouched other entry found
    simp [Block.isComplete, received] at lacks
  have tiled := tiled_same_shape _ _ sound.tiled (with_data_same_shape piece offset data)
  have delivered := receive_block_delivered sha1 piece sound offset data
  generalize (piece.receiveBlock sha1 offset data).1 = after at delivered
  cases delivered with
  | unknown absent =>
      rw [present] at absent
      cases absent
  | partly => rfl
  | verified _ _ bytes ended | rejected _ _ bytes ended =>
      exact absurd ((hashed_data_iff _ tiled).mp ⟨bytes, ended⟩) lacking

/-- The first block of a larger piece to arrive leaves the piece missing. -/
theorem first_fit_misclassified (torrent : Torrent) (blockSize : UInt32)
    (start manager : DownloadManager) (past : List Call) (log : List Action)
    (began : DownloadManager.new torrent blockSize = some start)
    (large : blockSize.toNat < torrent.info.pieceLength)
    (ran : run (downloads sha1) start past = some (manager, log))
    (apart : ∀ call ∈ past, ¬ Fits start.pieceManager.pieces call) (call : Call)
    (fits : Fits start.pieceManager.pieces call) :
    ∃ key piece, (perform sha1 manager call).1.pieceManager.pieces.lookup key = some piece ∧
      (∃ offset block, piece.blocks.lookup offset = some block) ∧ ¬ Classified piece := by
  obtain ⟨key, begin, data, peerIp, choice, origin, first, rfl, there, present, length⟩ := fits
  have known := run_keys sha1 start manager past log ran key
  rw [there] at known
  obtain ⟨piece, found⟩ := Option.isSome_iff_exists.mp known
  have descends := run_descends sha1 torrent blockSize start manager past log began ran key piece
    found
  obtain ⟨state, untouched⟩ := run_idle sha1 torrent blockSize start manager past log began apart
    ran key piece found
  obtain ⟨size, stride⟩ := run_dimensions sha1 torrent blockSize start manager past log began ran
    key piece found
  obtain ⟨other, again, same⟩ := descends.origin
  obtain rfl := Option.some.inj (there.symm.trans again)
  obtain ⟨block, here, shape⟩ :=
    same_shape_block piece origin (same_shape_symm _ _ same) begin.toNat first present
  have accepts : UInt32.ofNat data.length = block.length :=
    length.trans (congrArg (fun shape => shape.2.2) shape).symm
  have stored := first_fit_partly sha1 piece descends.sound untouched
    (by rw [size, stride]; exact large) begin.toNat block data here
  have arrived := with_data_at piece begin.toNat data block here
  rw [receive_data_fits block data accepts] at arrived
  refine ⟨key, withData piece begin.toNat data, ?_, ⟨_, _, arrived⟩, fun classified => ?_⟩
  · have unfinished : (piece.receiveBlock sha1 begin.toNat data).1.isComplete = false := by
      have still : (withData piece begin.toNat data).state = .missing := state
      rw [stored, Piece.isComplete, still]
    rw [perform, handle_event_piece, handle_recieve_found sha1 choice manager key begin.toNat data
      piece found, if_neg (by simp [unfinished]), ← stored]
    exact with_piece_found manager key _ piece found
  · have lacks := classified.missing.mp state begin.toNat _ arrived
    cases lacks

/-- Along a run every piece is classified exactly when pieces have one block, or nothing
that is delivered fits a block. -/
theorem classified_iff (torrent : Torrent) (blockSize : UInt32) (start : DownloadManager)
    (began : DownloadManager.new torrent blockSize = some start) (calls : List Call) :
    AlwaysClassified sha1 start calls ↔
      torrent.info.pieceLength ≤ blockSize.toNat ∨
        ∀ call ∈ calls, ¬ Fits start.pieceManager.pieces call := by
  constructor
  · intro always
    by_cases single : torrent.info.pieceLength ≤ blockSize.toNat
    · exact Or.inl single
    · right
      suffices apart : ∀ past, past <+: calls →
          ∀ call ∈ past, ¬ Fits start.pieceManager.pieces call from
        apart calls (List.prefix_refl calls)
      intro past
      induction past using List.reverseRecOn with
      | nil => simp
      | append_singleton past call ih =>
          intro inside
          have before := ih ((List.prefix_append past [call]).trans inside)
          intro other member fits
          rcases List.mem_append.mp member with earlier | last
          · exact before other earlier fits
          · obtain rfl := List.mem_singleton.mp last
            obtain ⟨middle, log, ran⟩ := run_total sha1 start past
            obtain ⟨key, piece, found, some_block, wrong⟩ := first_fit_misclassified sha1 torrent
              blockSize start middle past log began (by omega) ran before other fits
            have one_more := run_further sha1 start middle past log other ran
            exact wrong (always _ inside _ _ one_more key piece found some_block)
  · rintro (single | apart) past inside state log ran key piece found ⟨offset, block, there⟩
    · obtain ⟨size, stride⟩ :=
        run_dimensions sha1 torrent blockSize start state past log began ran key piece found
      exact single_classified sha1 piece
        (run_sound sha1 torrent blockSize start state past log began ran key piece found)
        (run_piece_settled sha1 torrent blockSize start state past log began ran key piece found)
        (run_never_incomplete sha1 torrent blockSize start state past log began ran key piece found)
        (by rw [size, stride]; exact single) offset block there
    · obtain ⟨missing, untouched⟩ := run_idle sha1 torrent blockSize start state past log began
        (fun call member => apart call (inside.subset member)) ran key piece found
      exact idle_classified piece missing untouched

theorem classified_one :
    AlwaysClassified zeroHash oneBlockManager [deliver default 0 [1, 2, 3, 4]] ↔
      oneBlock.info.pieceLength ≤ (4 : UInt32).toNat ∨
        ∀ call ∈ [deliver default 0 [1, 2, 3, 4]],
          ¬ Fits oneBlockManager.pieceManager.pieces call :=
  classified_iff zeroHash oneBlock 4 oneBlockManager (Option.some_get _).symm
    [deliver default 0 [1, 2, 3, 4]]

/-- One block of two has arrived, and the piece is still missing. -/
theorem arrived_block_unclassified :
    DownloadManager.new oneBlock 2 = some twoBlocks ∧
      ¬ AlwaysClassified zeroHash twoBlocks [deliver default 0 [1, 2]] := by
  refine ⟨(Option.some_get _).symm, fun always => ?_⟩
  have classified := always _ (List.prefix_refl _) firstArrived [] rfl 0 firstPiece
    (Option.some_get _).symm ⟨0, firstBlock, (Option.some_get _).symm⟩
  have lacks := classified.missing.mp (by decide) 0 firstBlock (Option.some_get _).symm
  revert lacks
  decide

end Classification

end MotteSeed.PieceStates
