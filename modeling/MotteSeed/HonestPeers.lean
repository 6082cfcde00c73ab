import MotteSeed.PieceStates
import MotteSeed.PieceLayout

/-! Downloads from peers that deliver the torrent's own bytes. What the manager holds is
then decided by which blocks have arrived: not by their order, their number, who sent
them or what else happened. A download can be finished exactly when every piece is full. -/
namespace MotteSeed.HonestPeers
open Toolkit Toolkit.HashTable Toolkit.Runs Toolkit.Tiling Toolkit.ByteImage PeerWire
  PeerConnection TorrentMeta PieceStore PieceShape PieceInvariant PieceLayout Downloads
  DownloadSafety PieceStates Persistence

/-- The bytes that a torrent describes. -/
structure Source (sha1 : Bytes → Hash) (info : Info) where
  bytes : Bytes
  size : bytes.length = info.fileDetails.totalSize
  hashes : ∀ i hash, info.pieceHash i = some hash →
    hash = sha1 (slice bytes (i * info.pieceLength) info.pieceLength)

/-- The call delivers data that this block accepts. -/
def Brings (pieces : HashMap UInt32 Piece) (index : UInt32) (offset : Nat) (call : Call) : Prop :=
  ∃ begin block peerIp choice piece slot,
    call = .event (.receivedPiece index begin block) peerIp choice ∧ begin.toNat = offset ∧
      pieces.lookup index = some piece ∧ piece.blocks.lookup offset = some slot ∧
      UInt32.ofNat block.length = slot.length

/-- Data that a block accepts is the torrent's data for that block. -/
def Genuine {sha1 : Bytes → Hash} {info : Info} (source : Source sha1 info)
    (pieces : HashMap UInt32 Piece) (call : Call) : Prop :=
  ∀ index begin block peerIp choice piece slot,
    call = .event (.receivedPiece index begin block) peerIp choice →
    pieces.lookup index = some piece → piece.blocks.lookup begin.toNat = some slot →
    UInt32.ofNat block.length = slot.length →
      index.toNat * info.pieceLength + begin.toNat + slot.length.toNat ≤ source.bytes.length ∧
        block = slice source.bytes (index.toNat * info.pieceLength + begin.toNat)
          slot.length.toNat

section Pieces

variable (sha1 : Bytes → Hash)

theorem block_bytes_some (piece : Piece) (offset : Nat) (bytes : Bytes)
    (stored : blockBytes piece offset = some bytes) :
    ∃ block, piece.blocks.lookup offset = some block ∧ block.state = .received bytes := by
  obtain ⟨block, found, inside⟩ := Option.bind_eq_some_iff.mp stored
  cases state : block.state with
  | received held =>
      rw [state] at inside
      exact ⟨block, found, by rw [state, Option.some.inj inside]⟩
  | missing | requested | written =>
      rw [state] at inside
      cases inside

theorem same_shape_slot (before after : Piece) (same : SameShape before after) (offset : Nat)
    (block : Block) (found : after.blocks.lookup offset = some block) :
    ∃ old, before.blocks.lookup offset = some old ∧ old.length = block.length := by
  obtain ⟨old, there, shape⟩ := same_shape_block before after same offset block found
  exact ⟨old, there, congrArg (fun shape => shape.2.2) shape⟩

theorem request_bytes (piece : Piece) (offset key : Nat) (block : Block) (peerIp : PeerIp)
    (now : Nat) (there : piece.blocks.lookup offset = some block)
    (lacking : block.isComplete = false) :
    blockBytes (piece.requestFromPeer offset peerIp now) key = blockBytes piece key := by
  by_cases same : key = offset
  · subst same
    simp only [blockBytes, Piece.requestFromPeer, lookup_modify_self, there, Option.map_some,
      Option.bind_some, Block.requestFromPeer]
    cases state : block.state with
    | received bytes => simp [Block.isComplete, state] at lacking
    | missing | requested | written => rfl
  · simp only [blockBytes, Piece.requestFromPeer, lookup_modify_ne _ _ _ _ same]

theorem with_data_stored (piece : Piece) (offset key : Nat) (data : Bytes) (slot : Block)
    (there : piece.blocks.lookup offset = some slot) :
    blockBytes (withData piece offset data) key =
      if key = offset ∧ UInt32.ofNat data.length = slot.length then some data
      else blockBytes piece key := by
  by_cases same : key = offset
  · subst same
    by_cases fits : UInt32.ofNat data.length = slot.length
    · rw [if_pos ⟨rfl, fits⟩]
      simp only [blockBytes, withData, lookup_modify_self, there, Option.map_some,
        Option.bind_some, Block.receiveData, if_pos fits]
    · rw [if_neg fun both => fits both.2]
      simp only [blockBytes, withData, lookup_modify_self, there, Option.map_some,
        Option.bind_some, Block.receiveData, if_neg fits]
  · rw [if_neg fun both => same both.1]
    simp only [blockBytes, withData, lookup_modify_ne _ _ _ _ same]

/-- A walk over blocks that hold their slices of some content collects that content. -/
theorem gather_slices (piece : Piece) (tiled : Tiled piece) (content : Bytes)
    (size : content.length = piece.length)
    (filled : ∀ offset block, piece.blocks.lookup offset = some block →
      block.state = .received (slice content offset block.length.toNat))
    (fuel offset : Nat) (enough : piece.length - offset ≤ fuel)
    (aligned : Aligned piece.blockSize.toNat piece.length offset) :
    gather piece.blocks piece.length (fun _ => piece.blockSize) fuel offset
      (content.take offset) = .data content := by
  induction fuel generalizing offset with
  | zero => rw [gather_end _ _ _ _ _ _ (by omega), List.take_of_length_le (by omega)]
  | succ fuel ih =>
      by_cases inside : offset < piece.length
      · have multiple := aligned_inside _ _ offset aligned inside
        have advance := tiled.positive (by omega)
        obtain ⟨block, found⟩ := tiled.covers offset inside multiple
        obtain ⟨-, -, -, -, length⟩ := tiled.entry offset block found
        -- A short block ends the content, so taking the stride or the block is the same.
        have grown : content.take offset ++ slice content offset block.length.toNat =
            content.take (offset + piece.blockSize.toNat) := by
          rw [slice, ← List.take_add, length, tile]
          by_cases whole : piece.blockSize.toNat ≤ piece.length - offset
          · rw [Nat.min_eq_left whole]
          · rw [Nat.min_eq_right (by omega), List.take_of_length_le (by omega),
              List.take_of_length_le (by omega)]
        rw [gather_step _ _ _ fuel offset _ _ block inside found (filled offset block found), grown]
        exact ih _ (by omega) (aligned_stride _ _ offset multiple)
      · rw [gather_end _ _ _ _ _ _ (by omega), List.take_of_length_le (by omega)]

end Pieces

section Deliveries

variable {sha1 : Bytes → Hash} (torrent : Torrent) (blockSize : UInt32)
  (start : DownloadManager) (began : DownloadManager.new torrent blockSize = some start)
  (narrow : hashCount torrent.info ≤ 2 ^ 32) (source : Source sha1 torrent.info)

include began narrow in
theorem descends_known (key : UInt32) (piece : Piece)
    (descends : Descends sha1 start.pieceManager key piece) :
    torrent.info.pieceHash key.toNat = some piece.hash ∧
      piece.length = torrent.info.pieceLength ∧ piece.blockSize = blockSize := by
  obtain ⟨origin, there, same⟩ := descends.origin
  obtain ⟨hash, known, built⟩ := manager_new_lookup torrent blockSize _ narrow
    (new_piece_manager torrent blockSize start began) key origin there
  have fresh := piece_new_fresh _ _ _ _ origin built
  exact ⟨by rw [same.hash, fresh.hash, known], same.length.trans fresh.length,
    same.blockSize.trans fresh.blockSize⟩

def Stores (key : UInt32) (piece : Piece) : Prop :=
  ∀ offset bytes, blockBytes piece offset = some bytes →
    ∃ slot, piece.blocks.lookup offset = some slot ∧
      key.toNat * torrent.info.pieceLength + offset + slot.length.toNat ≤ source.bytes.length ∧
      bytes = slice source.bytes (key.toNat * torrent.info.pieceLength + offset)
        slot.length.toNat

theorem genuine_piece_verified (key : UInt32) (piece : Piece)
    (known : torrent.info.pieceHash key.toNat = some piece.hash)
    (length : piece.length = torrent.info.pieceLength) (tiled : Tiled piece)
    (some_bytes : 0 < piece.length) (all : AllReceived piece)
    (stores : Stores torrent source key piece) :
    piece.hashedData = .data (slice source.bytes (key.toNat * torrent.info.pieceLength)
        torrent.info.pieceLength) ∧
      sha1 (slice source.bytes (key.toNat * torrent.info.pieceLength) torrent.info.pieceLength) =
        piece.hash := by
  have filled : ∀ offset block, piece.blocks.lookup offset = some block →
      key.toNat * torrent.info.pieceLength + offset + block.length.toNat ≤ source.bytes.length ∧
      block.state = .received (slice source.bytes
        (key.toNat * torrent.info.pieceLength + offset) block.length.toNat) := by
    intro offset block found
    obtain ⟨bytes, received⟩ := all offset block found
    obtain ⟨slot, there, room, rfl⟩ :=
      stores offset bytes (block_bytes_received piece offset block bytes found received)
    obtain rfl := Option.some.inj (found.symm.trans there)
    exact ⟨room, received⟩
  -- The block at the end of the piece shows that the whole piece lies in the torrent.
  obtain ⟨last, multiple, before, behind⟩ := covered piece.blockSize.toNat piece.length
    (piece.length - 1) (tiled.positive some_bytes) (by omega)
  obtain ⟨block, found⟩ := tiled.covers last (by omega) multiple
  obtain ⟨-, -, -, -, size⟩ := tiled.entry last block found
  have room := (filled last block found).1
  have content : (slice source.bytes (key.toNat * torrent.info.pieceLength)
      torrent.info.pieceLength).length = piece.length := by
    rw [slice, List.length_take, List.length_drop]
    omega
  refine ⟨?_, (source.hashes key.toNat piece.hash known).symm⟩
  refine gather_slices piece tiled _ content ?_ piece.length 0 (by omega) (aligned_zero _ _)
  intro offset other there
  obtain ⟨inside, -, -, -, width⟩ := tiled.entry offset other there
  have ends := tile_end piece.blockSize.toNat piece.length offset (Nat.le_of_lt inside)
  rw [slice_slice _ _ _ _ _ (by omega)]
  exact (filled offset other there).2

theorem brings_delivery (key index begin : UInt32) (offset : Nat) (block : Bytes)
    (peerIp : PeerIp) (choice : Choice) (piece : Piece)
    (descends : Descends sha1 start.pieceManager key piece) :
    Brings start.pieceManager.pieces key offset
        (.event (.receivedPiece index begin block) peerIp choice) ↔
      index = key ∧ begin.toNat = offset ∧ ∃ slot, piece.blocks.lookup offset = some slot ∧
        UInt32.ofNat block.length = slot.length := by
  obtain ⟨origin, there, same⟩ := descends.origin
  constructor
  · rintro ⟨_, _, _, _, first, slot, ⟨⟩, here, known, found, fits⟩
    obtain rfl := Option.some.inj (there.symm.trans known)
    obtain ⟨current, present, length⟩ :=
      same_shape_slot piece origin (same_shape_symm _ _ same) offset slot found
    exact ⟨rfl, here, current, present, by rw [fits, length]⟩
  · rintro ⟨rfl, here, slot, found, fits⟩
    obtain ⟨first, present, length⟩ := same_shape_slot origin piece same offset slot found
    exact ⟨begin, block, peerIp, choice, origin, first, rfl, here, there, present,
      by rw [fits, length]⟩

/-- A piece holds what has been brought to it, and holds the torrent's bytes. -/
structure Held (past : List Call) (key : UInt32) (piece : Piece) : Prop where
  descends : Descends sha1 start.pieceManager key piece
  stored : Stores torrent source key piece
  arrived : ∀ offset, (blockBytes piece offset).isSome = true ↔
    ∃ call ∈ past, Brings start.pieceManager.pieces key offset call

theorem held_kept (past : List Call) (call : Call) (key : UInt32) (piece after : Piece)
    (held : Held torrent start source past key piece)
    (descends : Descends sha1 start.pieceManager key after)
    (same : ∀ offset, blockBytes after offset = blockBytes piece offset)
    (nothing : ∀ offset, ¬ Brings start.pieceManager.pieces key offset call) :
    Held torrent start source (past ++ [call]) key after := by
  refine ⟨descends, fun offset bytes stored => ?_, fun offset => ?_⟩
  · rw [same] at stored
    obtain ⟨slot, found, room, exact⟩ := held.stored offset bytes stored
    obtain ⟨origin, there, shape⟩ := held.descends.origin
    obtain ⟨other, again, form⟩ := descends.origin
    obtain rfl := Option.some.inj (there.symm.trans again)
    obtain ⟨current, present, length⟩ := same_shape_slot after piece
      (same_shape_trans _ _ _ (same_shape_symm _ _ form) shape) offset slot found
    exact ⟨current, present, by rwa [length], by rwa [length]⟩
  · rw [same, held.arrived]
    constructor
    · rintro ⟨earlier, member, brings⟩
      exact ⟨earlier, List.mem_append_left _ member, brings⟩
    · rintro ⟨earlier, member, brings⟩
      rcases List.mem_append.mp member with old | new
      · exact ⟨earlier, old, brings⟩
      · rw [List.mem_singleton.mp new] at brings
        exact absurd brings (nothing offset)

theorem genuine_stores (key begin : UInt32) (block : Bytes) (peerIp : PeerIp) (choice : Choice)
    (piece : Piece) (slot : Block) (there : piece.blocks.lookup begin.toNat = some slot)
    (descends : Descends sha1 start.pieceManager key piece)
    (stores : Stores torrent source key piece)
    (genuine : Genuine source start.pieceManager.pieces
      (.event (.receivedPiece key begin block) peerIp choice)) :
    Stores torrent source key (withData piece begin.toNat block) := by
  intro offset bytes stored
  obtain ⟨origin, known, same⟩ := descends.origin
  have kept := with_data_same_shape piece begin.toNat block
  suffices held : ∃ slot, piece.blocks.lookup offset = some slot ∧
      key.toNat * torrent.info.pieceLength + offset + slot.length.toNat ≤ source.bytes.length ∧
      bytes = slice source.bytes (key.toNat * torrent.info.pieceLength + offset)
        slot.length.toNat by
    obtain ⟨old, found, room, exact⟩ := held
    obtain ⟨current, present, length⟩ :=
      same_shape_slot _ piece (same_shape_symm _ _ kept) offset old found
    exact ⟨current, present, by rwa [length], by rwa [length]⟩
  rw [with_data_stored piece begin.toNat offset block slot there] at stored
  by_cases here : offset = begin.toNat ∧ UInt32.ofNat block.length = slot.length
  · rw [if_pos here] at stored
    obtain ⟨rfl, fits⟩ := here
    obtain rfl := Option.some.inj stored
    obtain ⟨first, present, length⟩ := same_shape_slot origin piece same _ slot there
    obtain ⟨room, exact⟩ :=
      genuine key begin block peerIp choice origin first rfl known present (by rw [fits, length])
    rw [length] at room exact
    exact ⟨slot, there, room, exact⟩
  · rw [if_neg here] at stored
    exact stores offset bytes stored

theorem held_stored (past : List Call) (key begin : UInt32) (block : Bytes)
    (peerIp : PeerIp) (choice : Choice) (piece after : Piece) (slot : Block)
    (there : piece.blocks.lookup begin.toNat = some slot)
    (held : Held torrent start source past key piece)
    (genuine : Genuine source start.pieceManager.pieces
      (.event (.receivedPiece key begin block) peerIp choice))
    (descends : Descends sha1 start.pieceManager key after)
    (blocks : after.blocks = (withData piece begin.toNat block).blocks) :
    Held torrent start source (past ++ [.event (.receivedPiece key begin block) peerIp choice]) key
      after := by
  have stores := genuine_stores torrent start source key begin block peerIp choice piece slot there
    held.descends held.stored genuine
  refine ⟨descends, ?_, fun offset => ?_⟩
  · simpa only [Stores, blockBytes, blocks] using stores
  · have same : blockBytes after offset = blockBytes (withData piece begin.toNat block) offset := by
      simp only [blockBytes, blocks]
    rw [same, with_data_stored piece begin.toNat offset block slot there]
    have brings := brings_delivery start key key begin offset block peerIp choice piece
      held.descends
    simp only [List.mem_append, List.mem_singleton, or_and_right, exists_or, exists_eq_left,
      brings, ← held.arrived offset]
    by_cases here : offset = begin.toNat ∧ UInt32.ofNat block.length = slot.length
    · rw [if_pos here]
      exact iff_of_true rfl
        (Or.inr ⟨trivial, here.1.symm, slot, by rwa [here.1], here.2⟩)
    · rw [if_neg here]
      refine ⟨Or.inl, ?_⟩
      rintro (old | ⟨-, rfl, other, found, fits⟩)
      · exact old
      · obtain rfl := Option.some.inj (there.symm.trans found)
        exact absurd ⟨rfl, fits⟩ here

include began narrow in
/-- Genuine data is kept, also when it completes the piece. -/
theorem held_delivered (positive : 0 < torrent.info.pieceLength) (past : List Call)
    (key begin : UInt32) (block : Bytes) (peerIp : PeerIp) (choice : Choice) (piece : Piece)
    (held : Held torrent start source past key piece)
    (genuine : Genuine source start.pieceManager.pieces
      (.event (.receivedPiece key begin block) peerIp choice)) :
    Held torrent start source (past ++ [.event (.receivedPiece key begin block) peerIp choice]) key
      (piece.receiveBlock sha1 begin.toNat block).1 := by
  have descends := held.descends
  have next := descends_deliver sha1 start.pieceManager key piece begin.toNat block descends
  have delivered := receive_block_delivered sha1 piece descends.sound begin.toNat block
  generalize (piece.receiveBlock sha1 begin.toNat block).1 = after at next delivered
  cases delivered with
  | unknown absent =>
      refine held_kept torrent start source past _ key piece piece held descends (fun _ => rfl) ?_
      intro offset brings
      obtain ⟨-, rfl, slot, found, -⟩ :=
        (brings_delivery start key key begin offset block peerIp choice piece descends).mp brings
      rw [absent] at found
      cases found
  | partly slot there | verified slot there =>
      exact held_stored torrent start source past key begin block peerIp choice piece _ slot there
        held genuine next rfl
  | rejected slot there bytes ended differs =>
      obtain ⟨known, length, -⟩ :=
        descends_known torrent blockSize start began narrow key piece descends
      have tiled := tiled_same_shape _ _ descends.sound.tiled
        (with_data_same_shape piece begin.toNat block)
      have stores := genuine_stores torrent start source key begin block peerIp choice piece slot
        there descends held.stored genuine
      obtain ⟨exact, same⟩ := genuine_piece_verified torrent source key
        (withData piece begin.toNat block) known length tiled
        (Nat.lt_of_lt_of_eq positive length.symm) ((hashed_data_iff _ tiled).mp ⟨bytes, ended⟩)
        stores
      obtain rfl := Gathered.data.inj (ended.symm.trans exact)
      exact absurd same differs

def AllHeld (past : List Call) (manager : DownloadManager) : Prop :=
  ∀ key piece, manager.pieceManager.pieces.lookup key = some piece →
    Held torrent start source past key piece

include began narrow in
theorem step_held (positive : 0 < torrent.info.pieceLength) (past : List Call) (call : Call)
    (manager : DownloadManager) (held : AllHeld torrent start source past manager)
    (genuine : Genuine source start.pieceManager.pieces call) :
    AllHeld torrent start source (past ++ [call]) (perform sha1 manager call).1 := by
  have next := step_descends sha1 start.pieceManager manager _ call _
    (perform_step sha1 manager call) fun key piece found => (held key piece found).descends
  intro key after found
  have descends := next key after found
  by_cases delivery : ∃ index begin block peerIp choice,
      call = .event (.receivedPiece index begin block) peerIp choice
  · obtain ⟨index, begin, block, peerIp, choice, rfl⟩ := delivery
    have handled := handle_recieved sha1 choice manager index begin.toNat block
    rw [perform, handle_event_piece] at found
    generalize handleRecievePiece sha1 choice manager index begin.toNat block = result
      at handled found
    obtain ⟨finish, actions⟩ := result
    -- A delivery to another piece brings nothing here and touches nothing.
    have other : key ≠ index → manager.pieceManager.pieces.lookup key = some after →
        Held torrent start source
          (past ++ [.event (.receivedPiece index begin block) peerIp choice]) key after := by
      intro apart there
      refine held_kept torrent start source past _ key after after (held key after there)
        descends (fun _ => rfl) fun offset brings => apart ?_
      exact ((brings_delivery start key index begin offset block peerIp choice after
        descends).mp brings).1.symm
    have stored : ∀ piece, (withBlock sha1 manager index begin.toNat
        block).pieceManager.pieces.lookup key = some piece → key = index →
        Held torrent start source
          (past ++ [.event (.receivedPiece index begin block) peerIp choice]) key piece := by
      rintro piece there rfl
      rcases lookup_modify_some _ _ _ _ _ there with ⟨-, old, present, rfl⟩ | ⟨apart, -⟩
      · exact held_delivered torrent blockSize start began narrow source positive past key begin
          block peerIp choice old (held key old present) genuine
      · exact absurd rfl apart
    by_cases here : key = index
    · cases handled with
      | unknown absent =>
          rw [here] at found
          rw [absent] at found
          cases found
      | kept | failed => exact stored after found here
      | wrote =>
          -- Marking the piece as written leaves its blocks as they are.
          rcases lookup_modify_some _ _ _ _ _ found with ⟨-, old, present, rfl⟩ | ⟨apart, -⟩
          · have holds := stored old (by rwa [here]) here
            exact ⟨descends, holds.stored, holds.arrived⟩
          · exact absurd here apart
    · cases handled with
      | unknown => exact other here found
      | kept | failed => exact other here ((lookup_modify_ne _ _ _ _ here).symm.trans found)
      | wrote =>
          exact other here ((lookup_modify_ne _ _ _ _ here).symm.trans
            ((lookup_modify_ne _ _ _ _ here).symm.trans found))
  · have nothing : ∀ offset, ¬ Brings start.pieceManager.pieces key offset call := by
      rintro offset ⟨begin, block, peerIp, choice, piece, slot, rfl, -⟩
      exact delivery ⟨key, begin, block, peerIp, choice, rfl⟩
    have step := perform_step sha1 manager call
    generalize perform sha1 manager call = result at step found
    obtain ⟨finish, actions⟩ := result
    cases step with
    | quiet _ _ _ same =>
        rw [show finish.pieceManager = manager.pieceManager from same] at found
        exact held_kept torrent start source past call key after after (held key after found)
          descends (fun _ => rfl) nothing
    | requested _ index piece offset block peerIp now _ present needed there lacking =>
        rcases lookup_modify_some _ _ _ _ _ found with ⟨rfl, old, known, rfl⟩ | ⟨-, known⟩
        · obtain rfl : piece = old := Option.some.inj (present.symm.trans known)
          exact held_kept torrent start source past call key piece _ (held key piece known) descends
            (fun other => request_bytes piece offset other block peerIp now there lacking) nothing
        · exact held_kept torrent start source past call key after after (held key after known)
            descends (fun _ => rfl) nothing
    | recieved peerIp index begin block choice =>
        exact absurd ⟨index, begin, block, peerIp, choice, rfl⟩ delivery

theorem start_held (torrent : Torrent) (blockSize : UInt32) (start : DownloadManager)
    (began : DownloadManager.new torrent blockSize = some start)
    (source : Source sha1 torrent.info) : AllHeld torrent start source [] start := by
  intro key piece found
  obtain ⟨i, hash, known, fresh⟩ := new_pieces_fresh torrent blockSize start began key piece found
  have empty : ∀ offset, blockBytes piece offset = none := by
    intro offset
    cases there : piece.blocks.lookup offset with
    | none => simp only [blockBytes, there, Option.bind_none]
    | some block =>
        simp only [blockBytes, there, Option.bind_some, fresh.missing offset block there]
  refine ⟨⟨⟨piece, found, same_shape_refl piece⟩, (fresh_sound sha1 _ _ _ _ piece fresh).1⟩,
    fun offset bytes stored => ?_, fun offset => ?_⟩
  · rw [empty] at stored
    cases stored
  · rw [empty]
    simp

include began narrow in
theorem run_held (positive : 0 < torrent.info.pieceLength) (finish : DownloadManager)
    (calls : List Call) (log : List Action)
    (genuine : ∀ call ∈ calls, Genuine source start.pieceManager.pieces call)
    (ran : run (downloads sha1) start calls = some (finish, log)) :
    AllHeld torrent start source calls finish := by
  refine run_performed sha1 start calls (fun past manager _ => AllHeld torrent start source past
    manager) (start_held torrent blockSize start began source) ?_ calls (List.prefix_refl calls)
    finish log ran
  intro past call manager log inside _ held
  refine step_held torrent blockSize start began narrow source positive past call manager held
    (genuine call (inside.subset ?_))
  exact List.mem_append_right past (List.mem_singleton_self call)

include began narrow in
theorem complete_iff_brought (positive : 0 < torrent.info.pieceLength)
    (finish : DownloadManager) (calls : List Call) (log : List Action)
    (genuine : ∀ call ∈ calls, Genuine source start.pieceManager.pieces call)
    (ran : run (downloads sha1) start calls = some (finish, log)) (key : UInt32) (piece : Piece)
    (found : finish.pieceManager.pieces.lookup key = some piece) :
    piece.isComplete = true ↔ ∀ offset slot, piece.blocks.lookup offset = some slot →
      ∃ call ∈ calls, Brings start.pieceManager.pieces key offset call := by
  have held := run_held torrent blockSize start began narrow source positive finish calls log
    genuine ran key piece found
  constructor
  · intro complete offset slot there
    obtain ⟨bytes, received⟩ :=
      complete_all_received sha1 piece held.descends.sound complete offset slot there
    rw [← held.arrived, block_bytes_received piece offset slot bytes there received]
    rfl
  · intro brought
    have settled := run_piece_settled sha1 torrent blockSize start finish calls log began ran key
      piece found
    obtain ⟨-, length, -⟩ :=
      descends_known torrent blockSize start began narrow key piece held.descends
    obtain ⟨first, there⟩ := settled.tiled.covers 0 (by omega) (Nat.zero_mod _)
    refine (settled.settled 0 first there fun offset slot present => ?_).1
    obtain ⟨bytes, stored⟩ := Option.isSome_iff_exists.mp
      ((held.arrived offset).mpr (brought offset slot present))
    obtain ⟨other, again, received⟩ := block_bytes_some piece offset bytes stored
    obtain rfl := Option.some.inj (present.symm.trans again)
    exact ⟨bytes, received⟩

include began narrow in
theorem download_complete_iff_brought (positive : 0 < torrent.info.pieceLength)
    (finish : DownloadManager) (calls : List Call) (log : List Action)
    (genuine : ∀ call ∈ calls, Genuine source start.pieceManager.pieces call)
    (ran : run (downloads sha1) start calls = some (finish, log)) :
    finish.pieceManager.isDownloadComplete = true ↔
      ∀ key piece offset slot, start.pieceManager.pieces.lookup key = some piece →
        piece.blocks.lookup offset = some slot →
          ∃ call ∈ calls, Brings start.pieceManager.pieces key offset call := by
  rw [PieceManager.isDownloadComplete, all_values_iff]
  constructor
  · intro complete key origin offset slot there present
    have known := run_keys sha1 start finish calls log ran key
    rw [there] at known
    obtain ⟨piece, found⟩ := Option.isSome_iff_exists.mp known
    obtain ⟨other, again, same⟩ :=
      (run_descends sha1 torrent blockSize start finish calls log began ran key piece found).origin
    obtain rfl := Option.some.inj (there.symm.trans again)
    obtain ⟨current, still, -⟩ :=
      same_shape_slot piece origin (same_shape_symm _ _ same) offset slot present
    exact (complete_iff_brought torrent blockSize start began narrow source positive finish calls
      log genuine ran key piece found).mp (complete key piece found) offset current still
  · intro brought key piece found
    obtain ⟨origin, there, same⟩ :=
      (run_descends sha1 torrent blockSize start finish calls log began ran key piece found).origin
    refine (complete_iff_brought torrent blockSize start began narrow source positive finish calls
      log genuine ran key piece found).mpr fun offset slot present => ?_
    obtain ⟨first, began_there, -⟩ := same_shape_slot origin piece same offset slot present
    exact brought key origin offset first there began_there

end Deliveries

/-- Along a run of genuine deliveries a block stores its bytes of the torrent exactly when
some call has brought it, a piece is complete exactly when all its blocks have been
brought, and a complete piece collects the torrent's bytes. -/
theorem held_exactly (sha1 : Bytes → Hash) (torrent : Torrent) (blockSize : UInt32)
    (positive : 0 < torrent.info.pieceLength) (narrow : hashCount torrent.info ≤ 2 ^ 32)
    (source : Source sha1 torrent.info) (start finish : DownloadManager) (calls : List Call)
    (log : List Action) (began : DownloadManager.new torrent blockSize = some start)
    (genuine : ∀ call ∈ calls, Genuine source start.pieceManager.pieces call)
    (ran : run (downloads sha1) start calls = some (finish, log)) (key : UInt32) (piece : Piece)
    (found : finish.pieceManager.pieces.lookup key = some piece) :
    (∀ offset bytes, blockBytes piece offset = some bytes ↔
      (∃ call ∈ calls, Brings start.pieceManager.pieces key offset call) ∧
        ∃ slot, piece.blocks.lookup offset = some slot ∧
          bytes = slice source.bytes (key.toNat * torrent.info.pieceLength + offset)
            slot.length.toNat) ∧
    (piece.isComplete = true ↔ ∀ offset slot, piece.blocks.lookup offset = some slot →
      ∃ call ∈ calls, Brings start.pieceManager.pieces key offset call) ∧
    (piece.isComplete = true → piece.hashedData =
      .data (slice source.bytes (key.toNat * torrent.info.pieceLength)
        torrent.info.pieceLength)) := by
  have held := run_held torrent blockSize start began narrow source positive finish calls log
    genuine ran key piece found
  obtain ⟨known, length, -⟩ :=
    descends_known torrent blockSize start began narrow key piece held.descends
  refine ⟨fun offset bytes => ⟨fun stored => ?_, ?_⟩,
    complete_iff_brought torrent blockSize start began narrow source positive finish calls log
      genuine ran key piece found, fun complete => ?_⟩
  · obtain ⟨slot, there, -, exact⟩ := held.stored offset bytes stored
    exact ⟨(held.arrived offset).mp (by rw [stored]; rfl), slot, there, exact⟩
  · rintro ⟨brought, slot, there, rfl⟩
    obtain ⟨bytes, stored⟩ := Option.isSome_iff_exists.mp ((held.arrived offset).mpr brought)
    obtain ⟨other, again, -, rfl⟩ := held.stored offset bytes stored
    obtain rfl := Option.some.inj (there.symm.trans again)
    exact stored
  · exact (genuine_piece_verified torrent source key piece known length held.descends.sound.tiled
      (by omega) (complete_all_received sha1 piece held.descends.sound complete) held.stored).1

def oneSource : Source zeroHash oneBlock.info where
  bytes := [1, 2, 3, 4]
  size := rfl
  hashes i hash known := by
    obtain rfl : i = 0 := by
      have inside := piece_hash_index oneBlock.info i hash known
      have one : hashCount oneBlock.info = 1 := by decide
      omega
    exact Option.some.inj (known.symm.trans (by decide))

theorem first_genuine :
    ∀ call ∈ [deliver default 0 [1, 2]],
      Genuine oneSource twoBlocks.pieceManager.pieces call := by
  intro call member
  obtain rfl := List.mem_singleton.mp member
  rintro index begin block peerIp choice piece slot ⟨⟩ - - fits
  rw [← fits]
  decide

theorem held_exactly_first :
    (∀ offset bytes, blockBytes firstPiece offset = some bytes ↔
      (∃ call ∈ [deliver default 0 [1, 2]],
        Brings twoBlocks.pieceManager.pieces 0 offset call) ∧
        ∃ slot, firstPiece.blocks.lookup offset = some slot ∧
          bytes = slice oneSource.bytes ((0 : UInt32).toNat * oneBlock.info.pieceLength + offset)
            slot.length.toNat) ∧
    (firstPiece.isComplete = true ↔ ∀ offset slot, firstPiece.blocks.lookup offset = some slot →
      ∃ call ∈ [deliver default 0 [1, 2]],
        Brings twoBlocks.pieceManager.pieces 0 offset call) ∧
    (firstPiece.isComplete = true → firstPiece.hashedData =
      .data (slice oneSource.bytes ((0 : UInt32).toNat * oneBlock.info.pieceLength)
        oneBlock.info.pieceLength)) :=
  held_exactly zeroHash oneBlock 2 (by decide) (by decide) oneSource twoBlocks firstArrived
    [deliver default 0 [1, 2]] [] (Option.some_get _).symm first_genuine rfl 0 firstPiece
    (Option.some_get _).symm

section Completable

variable {sha1 : Bytes → Hash} (torrent : Torrent) (blockSize : UInt32)
  (start : DownloadManager) (began : DownloadManager.new torrent blockSize = some start)
  (narrow : hashCount torrent.info ≤ 2 ^ 32) (source : Source sha1 torrent.info)

def delivery (key : UInt32) (slot : Block) : Call :=
  .event (.receivedPiece key (UInt32.ofNat slot.offset)
    (slice source.bytes (key.toNat * torrent.info.pieceLength + slot.offset) slot.length.toNat))
    (Vector.replicate 6 0) default

def deliveries : List Call :=
  start.pieceManager.pieces.entries.flatMap fun piece =>
    (values piece.2.blocks).map (delivery torrent source piece.1)

theorem mem_deliveries_iff (call : Call) :
    call ∈ deliveries torrent start source ↔
      ∃ key piece offset slot, start.pieceManager.pieces.lookup key = some piece ∧
        piece.blocks.lookup offset = some slot ∧ call = delivery torrent source key slot := by
  simp only [deliveries, List.mem_flatMap, List.mem_map, mem_values_iff, lookup_iff_entry]
  constructor
  · rintro ⟨⟨key, piece⟩, member, slot, ⟨offset, there⟩, rfl⟩
    exact ⟨key, piece, offset, slot, member, there, rfl⟩
  · rintro ⟨key, piece, offset, slot, member, there, rfl⟩
    exact ⟨⟨key, piece⟩, member, slot, ⟨offset, there⟩, rfl⟩

include began in
theorem start_slot (key : UInt32) (piece : Piece) (offset : Nat) (slot : Block)
    (found : start.pieceManager.pieces.lookup key = some piece)
    (there : piece.blocks.lookup offset = some slot) :
    slot.offset = offset ∧ offset < 2 ^ 32 ∧
      offset + slot.length.toNat ≤ torrent.info.pieceLength := by
  obtain ⟨i, hash, -, fresh⟩ := new_pieces_fresh torrent blockSize start began key piece found
  obtain ⟨inside, -, -, here, width⟩ := fresh.tiled.entry offset slot there
  have ends := tile_end piece.blockSize.toNat piece.length offset (Nat.le_of_lt inside)
  have small := fresh.tiled.narrow
  have length := fresh.length
  exact ⟨here, by omega, by omega⟩

theorem delivery_brings (key : UInt32) (piece : Piece) (offset : Nat) (slot : Block)
    (found : start.pieceManager.pieces.lookup key = some piece)
    (there : piece.blocks.lookup offset = some slot)
    (here : slot.offset = offset) (small : offset < 2 ^ 32)
    (room : key.toNat * torrent.info.pieceLength + offset + slot.length.toNat ≤
      source.bytes.length) :
    Genuine source start.pieceManager.pieces (delivery torrent source key slot) ∧
      Brings start.pieceManager.pieces key offset (delivery torrent source key slot) := by
  have begin : (UInt32.ofNat slot.offset).toNat = offset := by
    rw [here, UInt32.toNat_ofNat', Nat.mod_eq_of_lt small]
  have size : (slice source.bytes (key.toNat * torrent.info.pieceLength + slot.offset)
      slot.length.toNat).length = slot.length.toNat := by
    rw [slice, List.length_take, List.length_drop]
    omega
  refine ⟨?_, _, _, _, _, piece, slot, rfl, begin, found, there, by rw [size, UInt32.ofNat_toNat]⟩
  rintro index _ _ _ _ other block ⟨⟩ again present -
  obtain rfl := Option.some.inj (found.symm.trans again)
  rw [begin] at present ⊢
  obtain rfl := Option.some.inj (there.symm.trans present)
  exact ⟨room, by rw [here]⟩

include began narrow in
theorem deliveries_complete (positive : 0 < torrent.info.pieceLength)
    (whole : torrent.info.pieceLength * hashCount torrent.info ≤ source.bytes.length) :
    (∀ call ∈ deliveries torrent start source,
      Genuine source start.pieceManager.pieces call) ∧
    ∃ finish log, run (downloads sha1) start (deliveries torrent start source) =
      some (finish, log) ∧ finish.pieceManager.isDownloadComplete = true := by
  have each : ∀ key piece offset slot, start.pieceManager.pieces.lookup key = some piece →
      piece.blocks.lookup offset = some slot →
      Genuine source start.pieceManager.pieces (delivery torrent source key slot) ∧
        Brings start.pieceManager.pieces key offset (delivery torrent source key slot) := by
    intro key piece offset slot found there
    obtain ⟨here, small, ends⟩ :=
      start_slot torrent blockSize start began key piece offset slot found there
    have index := (new_piece_iff torrent blockSize start.pieceManager
      (new_piece_manager torrent blockSize start began) narrow key).mp ⟨piece, found⟩
    have scaled := Nat.mul_le_mul_left torrent.info.pieceLength (Nat.succ_le_of_lt index)
    rw [Nat.mul_succ, Nat.mul_comm _ key.toNat] at scaled
    exact delivery_brings torrent start source key piece offset slot found there here small
      (by omega)
  have genuine : ∀ call ∈ deliveries torrent start source,
      Genuine source start.pieceManager.pieces call := by
    intro call member
    obtain ⟨key, piece, offset, slot, found, there, rfl⟩ :=
      (mem_deliveries_iff torrent start source call).mp member
    exact (each key piece offset slot found there).1
  obtain ⟨finish, log, ran⟩ := run_total sha1 start (deliveries torrent start source)
  refine ⟨genuine, finish, log, ran, ?_⟩
  refine (download_complete_iff_brought torrent blockSize start began narrow source positive finish
    _ log genuine ran).mpr fun key piece offset slot found there => ?_
  exact ⟨_, (mem_deliveries_iff torrent start source _).mpr
    ⟨key, piece, offset, slot, found, there, rfl⟩, (each key piece offset slot found there).2⟩

include began narrow in
/-- The last block of a piece that reaches past the torrent is never brought. -/
theorem unreachable_piece (positive : 0 < torrent.info.pieceLength) (index : Nat)
    (known : index < hashCount torrent.info)
    (short : torrent.info.fileDetails.totalSize <
      index * torrent.info.pieceLength + torrent.info.pieceLength)
    (finish : DownloadManager) (calls : List Call) (log : List Action)
    (genuine : ∀ call ∈ calls, Genuine source start.pieceManager.pieces call)
    (ran : run (downloads sha1) start calls = some (finish, log)) :
    finish.pieceManager.isDownloadComplete = false := by
  rw [Bool.eq_false_iff]
  intro complete
  have brought := (download_complete_iff_brought torrent blockSize start began narrow source
    positive finish calls log genuine ran).mp complete
  have made := new_piece_manager torrent blockSize start began
  obtain ⟨piece, found⟩ := manager_new_has torrent blockSize start.pieceManager made index known
  obtain ⟨i, hash, -, fresh⟩ :=
    new_pieces_fresh torrent blockSize start began _ piece found
  obtain ⟨last, multiple, before, behind⟩ := covered piece.blockSize.toNat piece.length
    (piece.length - 1) (fresh.tiled.positive (by rw [fresh.length]; exact positive))
    (by rw [fresh.length]; omega)
  have length := fresh.length
  obtain ⟨slot, there⟩ := fresh.tiled.covers last (by omega) multiple
  obtain ⟨-, -, -, -, width⟩ := fresh.tiled.entry last slot there
  obtain ⟨call, member, brings⟩ := brought _ piece last slot found there
  obtain ⟨begin, block, peerIp, choice, other, again, rfl, here, same, present, fits⟩ := brings
  obtain rfl := Option.some.inj (found.symm.trans same)
  obtain rfl := Option.some.inj (there.symm.trans present)
  rw [← here] at there
  have room := (genuine _ member _ begin block peerIp choice piece slot rfl found there fits).1
  rw [word_index index _ known narrow, here, source.size] at room
  omega

end Completable

/-- With one hash for each piece, pieces below 2^32 bytes and a block size, the manager is
made, and genuine deliveries can finish its download exactly when the total size is a multiple
of the piece length. -/
theorem completable_iff (sha1 : Bytes → Hash) (torrent : Torrent) (blockSize : UInt32)
    (positive : 0 < torrent.info.pieceLength) (short : torrent.info.pieceLength < 2 ^ 32)
    (block : 1 ≤ blockSize) (hashes : hashCount torrent.info = pieceCount torrent.info)
    (narrow : hashCount torrent.info ≤ 2 ^ 32) (source : Source sha1 torrent.info) :
    ∃ start, DownloadManager.new torrent blockSize = some start ∧
      ((∃ calls finish log, (∀ call ∈ calls, Genuine source start.pieceManager.pieces call) ∧
        run (downloads sha1) start calls = some (finish, log) ∧
          finish.pieceManager.isDownloadComplete = true) ↔
        torrent.info.pieceLength ∣ torrent.info.fileDetails.totalSize) := by
  obtain ⟨manager, made⟩ :=
    manager_new_ends torrent blockSize (UInt32.le_iff_toNat_le.mp block) short
  obtain ⟨start, began⟩ : ∃ start, DownloadManager.new torrent blockSize = some start :=
    ⟨_, Option.map_eq_some_iff.mpr ⟨manager, made, rfl⟩⟩
  refine ⟨start, began, ?_, fun divides => ?_⟩
  · rintro ⟨calls, finish, log, genuine, ran, complete⟩
    by_contra ragged
    obtain ⟨last, less, missing⟩ := count_ragged torrent.info positive ragged
    have never := unreachable_piece torrent blockSize start began narrow source positive last
      (by rwa [hashes]) (by omega) finish calls log genuine ran
    rw [complete] at never
    cases never
  · have total := count_exact torrent.info positive divides
    obtain ⟨genuine, finish, log, ran, complete⟩ := deliveries_complete torrent blockSize start
      began narrow source positive (by rw [hashes, ← total, source.size])
    exact ⟨_, finish, log, genuine, ran, complete⟩

theorem completable_two_blocks :
    ∃ start, DownloadManager.new oneBlock 2 = some start ∧
      ((∃ calls finish log,
        (∀ call ∈ calls, Genuine oneSource start.pieceManager.pieces call) ∧
        run (downloads zeroHash) start calls = some (finish, log) ∧
          finish.pieceManager.isDownloadComplete = true) ↔
        oneBlock.info.pieceLength ∣ oneBlock.info.fileDetails.totalSize) :=
  completable_iff zeroHash oneBlock 2 (by decide) (by decide) (by decide) (by decide) (by decide)
    oneSource

end MotteSeed.HonestPeers
