import MotteSeed.PieceShape

/-! What every call keeps true of one piece. The state flag `Complete` or `Written`
stands for data that hashes to the expected value, and a delivery has one of four
outcomes, listed once in `Delivered`. -/
namespace MotteSeed.PieceInvariant
open Toolkit Toolkit.HashTable Toolkit.Tiling PeerWire TorrentMeta PieceStore PieceShape

structure Sound (sha1 : Bytes → Hash) (piece : Piece) : Prop where
  tiled : Tiled piece
  unwritten : ∀ offset block, piece.blocks.lookup offset = some block → block.state ≠ .written
  verified : piece.isComplete = true → ∃ data, piece.hashedData = .data data ∧
    sha1 data = piece.hash

section Shape

def blockShape (block : Block) : UInt32 × Nat × UInt32 := (block.index, block.offset, block.length)

/-- Only states differ: of the piece itself and of its blocks. -/
structure SameShape (before after : Piece) : Prop where
  index : after.index = before.index
  length : after.length = before.length
  hash : after.hash = before.hash
  blockSize : after.blockSize = before.blockSize
  blocks : ∀ offset, (after.blocks.lookup offset).map blockShape =
    (before.blocks.lookup offset).map blockShape

theorem same_shape_refl (piece : Piece) : SameShape piece piece :=
  ⟨rfl, rfl, rfl, rfl, fun _ => rfl⟩

theorem same_shape_trans (first second third : Piece) (before : SameShape first second)
    (after : SameShape second third) : SameShape first third :=
  ⟨after.index.trans before.index, after.length.trans before.length,
    after.hash.trans before.hash, after.blockSize.trans before.blockSize,
    fun offset => (after.blocks offset).trans (before.blocks offset)⟩

theorem same_shape_block (before after : Piece) (same : SameShape before after) (offset : Nat)
    (block : Block) (found : after.blocks.lookup offset = some block) :
    ∃ old, before.blocks.lookup offset = some old ∧ blockShape old = blockShape block := by
  have shapes := same.blocks offset
  rw [found, Option.map_some] at shapes
  exact Option.map_eq_some_iff.mp shapes.symm

theorem same_shape_symm (before after : Piece) (same : SameShape before after) :
    SameShape after before :=
  ⟨same.index.symm, same.length.symm, same.hash.symm, same.blockSize.symm,
    fun offset => (same.blocks offset).symm⟩

theorem tiled_same_shape (before after : Piece) (tiled : Tiled before)
    (same : SameShape before after) : Tiled after := by
  refine ⟨?_, ?_, ?_, ?_⟩
  · rw [same.length, same.blockSize]
    exact tiled.positive
  · rw [same.length]
    exact tiled.narrow
  · intro offset block found
    obtain ⟨old, present, shape⟩ := same_shape_block before after same offset block found
    simp only [blockShape, Prod.mk.injEq] at shape
    obtain ⟨index, start, length⟩ := shape
    rw [same.length, same.blockSize, same.index, ← index, ← start, ← length]
    exact tiled.entry offset old present
  · intro offset inside multiple
    rw [same.length] at inside
    rw [same.blockSize] at multiple
    obtain ⟨old, present⟩ := tiled.covers offset inside multiple
    obtain ⟨block, found, -⟩ :=
      same_shape_block after before (same_shape_symm before after same) offset old present
    exact ⟨block, found⟩

theorem modify_same_shape (piece : Piece) (offset : Nat) (change : Block → Block)
    (keeps : ∀ block, blockShape (change block) = blockShape block) :
    SameShape piece { piece with blocks := modify piece.blocks offset change } := by
  refine ⟨rfl, rfl, rfl, rfl, fun key => ?_⟩
  by_cases same : key = offset
  · subst same
    rw [lookup_modify_self, Option.map_map]
    exact congrArg (fun f => (piece.blocks.lookup key).map f) (funext keeps)
  · rw [lookup_modify_ne _ _ _ _ same]

theorem cancel_same_shape (piece : Piece) (state : PieceState) :
    SameShape piece { piece with
      blocks := mapEntries (fun _ block => block.cancle) piece.blocks, state := state } := by
  refine ⟨rfl, rfl, rfl, rfl, fun key => ?_⟩
  rw [lookup_map_entries, Option.map_map]
  rfl

theorem receive_data_shape (block : Block) (data : Bytes) :
    blockShape (block.receiveData data) = blockShape block := by
  unfold Block.receiveData
  split <;> rfl

theorem request_same_shape (piece : Piece) (offset : Nat) (peerIp : PeerIp) (now : Nat) :
    SameShape piece (piece.requestFromPeer offset peerIp now) :=
  modify_same_shape piece offset _ fun _ => rfl

end Shape

section Delivery

theorem fully_downloaded_iff (piece : Piece)
    (unwritten : ∀ offset block, piece.blocks.lookup offset = some block →
      block.state ≠ .written) :
    piece.isFullyDownloaded = true ↔ AllReceived piece := by
  rw [Piece.isFullyDownloaded, all_values_iff]
  constructor
  · intro every offset block found
    have complete := every offset block found
    cases here : block.state with
    | received bytes => exact ⟨bytes, rfl⟩
    -- Writing a piece marks the piece alone, never its blocks.
    | written => exact absurd here (unwritten offset block found)
    | missing | requested => simp [Block.isComplete, here] at complete
  · intro all offset block found
    obtain ⟨bytes, here⟩ := all offset block found
    simp [Block.isComplete, here]

def withData (piece : Piece) (offset : Nat) (data : Bytes) : Piece :=
  { piece with blocks := modify piece.blocks offset fun block => block.receiveData data }

theorem with_data_same_shape (piece : Piece) (offset : Nat) (data : Bytes) :
    SameShape piece (withData piece offset data) :=
  modify_same_shape piece offset _ fun block => receive_data_shape block data

theorem with_data_lookup (piece : Piece) (offset key : Nat) (data : Bytes) (block : Block)
    (found : (withData piece offset data).blocks.lookup key = some block) :
    piece.blocks.lookup key = some block ∨
      (key = offset ∧ block.state = .received data ∧
        UInt32.ofNat data.length = block.length) := by
  rcases lookup_modify_some _ _ _ _ _ found with ⟨rfl, old, present, rfl⟩ | ⟨-, same⟩
  · by_cases fits : UInt32.ofNat data.length = old.length
    · right
      simp only [Block.receiveData, if_pos fits]
      exact ⟨trivial, trivial, fits⟩
    · left
      simpa [Block.receiveData, if_neg fits] using present
  · exact Or.inl same

inductive Delivered (sha1 : Bytes → Hash) (piece : Piece) (offset : Nat) (data : Bytes) :
    Piece → Prop where
  | unknown (absent : piece.blocks.lookup offset = none) :
      Delivered sha1 piece offset data piece
  | partly (block : Block) (present : piece.blocks.lookup offset = some block)
      (lacking : ¬ AllReceived (withData piece offset data)) :
      Delivered sha1 piece offset data (withData piece offset data)
  | verified (block : Block) (present : piece.blocks.lookup offset = some block)
      (bytes : Bytes) (ended : (withData piece offset data).hashedData = .data bytes)
      (same : sha1 bytes = piece.hash) :
      Delivered sha1 piece offset data { withData piece offset data with state := .complete }
  | rejected (block : Block) (present : piece.blocks.lookup offset = some block)
      (bytes : Bytes) (ended : (withData piece offset data).hashedData = .data bytes)
      (differs : sha1 bytes ≠ piece.hash) :
      Delivered sha1 piece offset data
        { withData piece offset data with
          blocks := mapEntries (fun _ block => block.cancle) (withData piece offset data).blocks
          state := .missing }

theorem with_data_unwritten (piece : Piece) (offset : Nat) (data : Bytes)
    (unwritten : ∀ offset block, piece.blocks.lookup offset = some block →
      block.state ≠ .written) (key : Nat) (block : Block)
    (found : (withData piece offset data).blocks.lookup key = some block) :
    block.state ≠ .written := by
  rcases with_data_lookup piece offset key data block found with old | ⟨-, received, -⟩
  · exact unwritten key block old
  · rw [received]
    exact BlockState.noConfusion

theorem receive_block_outcome (sha1 : Bytes → Hash) (piece : Piece) (tiled : Tiled piece)
    (unwritten : ∀ offset block, piece.blocks.lookup offset = some block →
      block.state ≠ .written) (offset : Nat) (data : Bytes) :
    Delivered sha1 piece offset data (piece.receiveBlock sha1 offset data).1 := by
  have tiled := tiled_same_shape _ _ tiled (with_data_same_shape piece offset data)
  have unwritten := with_data_unwritten piece offset data unwritten
  cases present : piece.blocks.lookup offset with
  | none =>
      rw [Piece.receiveBlock, present]
      exact .unknown present
  | some block =>
      rw [Piece.receiveBlock, present]
      change Delivered sha1 piece offset data
        (if (withData piece offset data).isFullyDownloaded then
          (((withData piece offset data).verify sha1).1, true)
        else (withData piece offset data, true)).1
      by_cases full : (withData piece offset data).isFullyDownloaded = true
      · rw [if_pos full]
        have all := (fully_downloaded_iff _ unwritten).mp full
        obtain ⟨bytes, ended⟩ := (hashed_data_iff _ tiled).mpr all
        simp only [Piece.verify, ended]
        by_cases same : sha1 bytes = piece.hash
        · rw [if_pos (show sha1 bytes = (withData piece offset data).hash from same)]
          exact .verified block present bytes ended same
        · rw [if_neg (show ¬ sha1 bytes = (withData piece offset data).hash from same)]
          exact .rejected block present bytes ended same
      · rw [if_neg full]
        exact .partly block present fun all => full ((fully_downloaded_iff _ unwritten).mpr all)

theorem receive_block_delivered (sha1 : Bytes → Hash) (piece : Piece)
    (sound : Sound sha1 piece) (offset : Nat) (data : Bytes) :
    Delivered sha1 piece offset data (piece.receiveBlock sha1 offset data).1 :=
  receive_block_outcome sha1 piece sound.tiled sound.unwritten offset data

theorem delivered_same_shape (sha1 : Bytes → Hash) (piece after : Piece) (offset : Nat)
    (data : Bytes) (delivered : Delivered sha1 piece offset data after) :
    SameShape piece after := by
  have stored := with_data_same_shape piece offset data
  cases delivered with
  | unknown => exact same_shape_refl piece
  | partly => exact stored
  | verified => exact ⟨rfl, rfl, rfl, rfl, stored.blocks⟩
  | rejected => exact same_shape_trans _ _ _ stored (cancel_same_shape _ _)

theorem complete_all_received (sha1 : Bytes → Hash) (piece : Piece) (sound : Sound sha1 piece)
    (complete : piece.isComplete = true) : AllReceived piece := by
  obtain ⟨data, ended, -⟩ := sound.verified complete
  exact (hashed_data_iff piece sound.tiled).mp ⟨data, ended⟩

theorem with_data_all_received (piece : Piece) (offset : Nat) (data : Bytes)
    (all : AllReceived piece) : AllReceived (withData piece offset data) := by
  intro key block found
  rcases with_data_lookup piece offset key data block found with old | ⟨-, received, -⟩
  · exact all key block old
  · exact ⟨data, received⟩

theorem delivered_sound (sha1 : Bytes → Hash) (piece after : Piece) (offset : Nat)
    (data : Bytes) (sound : Sound sha1 piece)
    (delivered : Delivered sha1 piece offset data after) : Sound sha1 after := by
  have tiled := tiled_same_shape _ _ sound.tiled
    (delivered_same_shape sha1 piece after offset data delivered)
  have unwritten := with_data_unwritten piece offset data sound.unwritten
  cases delivered with
  | unknown => exact sound
  | partly block present lacking =>
      -- With its flag set every block was there, and one more delivery takes none away.
      refine ⟨tiled, unwritten, fun complete => absurd ?_ lacking⟩
      exact with_data_all_received piece offset data
        (complete_all_received sha1 piece sound complete)
  | verified block present bytes ended same =>
      exact ⟨tiled, unwritten, fun _ => ⟨bytes, ended, same⟩⟩
  | rejected block present bytes ended differs =>
      refine ⟨tiled, ?_, fun complete => by cases complete⟩
      intro key block found
      rw [lookup_map_entries] at found
      obtain ⟨old, -, rfl⟩ := Option.map_eq_some_iff.mp found
      exact BlockState.noConfusion

theorem with_data_exact (piece : Piece) (offset : Nat) (data : Bytes) (exact : Exact piece)
    (short : data.length < 2 ^ 32) : Exact (withData piece offset data) := by
  intro key block bytes found received
  rcases with_data_lookup piece offset key data block found with old | ⟨-, new, size⟩
  · exact exact key block bytes old received
  · obtain rfl : data = bytes := BlockState.received.inj (new.symm.trans received)
    rw [← size, UInt32.toNat_ofNat', Nat.mod_eq_of_lt short]

theorem delivered_exact (sha1 : Bytes → Hash) (piece after : Piece) (offset : Nat)
    (data : Bytes) (exact : Exact piece) (short : data.length < 2 ^ 32)
    (delivered : Delivered sha1 piece offset data after) : Exact after := by
  have stored := with_data_exact piece offset data exact short
  cases delivered with
  | unknown => exact exact
  | partly => exact stored
  | verified => exact stored
  | rejected block present bytes ended differs =>
      intro key block bytes found received
      rw [lookup_map_entries] at found
      obtain ⟨old, -, rfl⟩ := Option.map_eq_some_iff.mp found
      cases received

end Delivery

section Flags

theorem request_sound (sha1 : Bytes → Hash) (piece : Piece) (offset : Nat) (peerIp : PeerIp)
    (now : Nat) (sound : Sound sha1 piece) (open_piece : piece.isComplete = false) :
    Sound sha1 (piece.requestFromPeer offset peerIp now) := by
  refine ⟨tiled_same_shape _ _ sound.tiled (request_same_shape piece offset peerIp now), ?_, ?_⟩
  · intro key block found
    rcases lookup_modify_some _ _ _ _ _ found with ⟨-, old, -, rfl⟩ | ⟨-, same⟩
    · exact BlockState.noConfusion
    · exact sound.unwritten key block same
  · intro complete
    have unchanged : (piece.requestFromPeer offset peerIp now).isComplete = piece.isComplete := rfl
    rw [unchanged, open_piece] at complete
    cases complete

theorem request_exact (piece : Piece) (offset : Nat) (peerIp : PeerIp) (now : Nat)
    (exact : Exact piece) : Exact (piece.requestFromPeer offset peerIp now) := by
  intro key block bytes found received
  rcases lookup_modify_some _ _ _ _ _ found with ⟨-, old, -, rfl⟩ | ⟨-, same⟩
  · cases received
  · exact exact key block bytes same received

theorem mask_written_sound (sha1 : Bytes → Hash) (piece : Piece) (sound : Sound sha1 piece)
    (complete : piece.isComplete = true) : Sound sha1 piece.maskWritten :=
  ⟨⟨sound.tiled.positive, sound.tiled.narrow, sound.tiled.entry, sound.tiled.covers⟩,
    sound.unwritten, fun _ => sound.verified complete⟩

theorem piece_data_verified (sha1 : Bytes → Hash) (piece : Piece) (sound : Sound sha1 piece)
    (data : Bytes) (ready : piece.getPieceData = some data) :
    piece.state = .complete ∧ sha1 data = piece.hash ∧
      (Exact piece → data.length = piece.length) := by
  unfold Piece.getPieceData at ready
  by_cases complete : piece.state = .complete
  · have flag : piece.isComplete = true := by simp [Piece.isComplete, complete]
    obtain ⟨hashed, ended, same⟩ := sound.verified flag
    rw [if_pos complete, stored_eq_hashed piece sound.tiled, ended] at ready
    obtain rfl := Option.some.inj ready
    exact ⟨complete, same, fun exact => hashed_data_length piece sound.tiled exact hashed ended⟩
  · rw [if_neg complete] at ready
    cases ready

theorem complete_has_data (sha1 : Bytes → Hash) (piece : Piece) (sound : Sound sha1 piece)
    (complete : piece.state = .complete) : ∃ data, piece.getPieceData = some data := by
  have flag : piece.isComplete = true := by simp [Piece.isComplete, complete]
  obtain ⟨hashed, ended, -⟩ := sound.verified flag
  refine ⟨hashed, ?_⟩
  rw [Piece.getPieceData, if_pos complete, stored_eq_hashed piece sound.tiled, ended]

theorem fresh_sound (sha1 : Bytes → Hash) (index : UInt32) (length : Nat) (hash : Hash)
    (blockSize : UInt32) (piece : Piece) (fresh : Fresh index length hash blockSize piece) :
    Sound sha1 piece ∧ Exact piece := by
  refine ⟨⟨fresh.tiled, ?_, ?_⟩, ?_⟩
  · intro offset block found
    rw [fresh.missing offset block found]
    exact BlockState.noConfusion
  · intro complete
    simp [Piece.isComplete, fresh.state] at complete
  · intro offset block bytes found received
    rw [fresh.missing offset block found] at received
    cases received

end Flags

end MotteSeed.PieceInvariant
