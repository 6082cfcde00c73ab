import MotteSeed.PieceInvariant
import Mathlib.Logic.Function.Iterate

/-! The two loops of a piece. The constructor's loop moves its offset by a remainder
that was cast to 32 bits, so it advances and ends only below 2^32 bytes. There it
leaves the blocks that the walks of `verify` and `get_piece_data` read alike. -/
namespace MotteSeed.PieceBlocks
open Toolkit Toolkit.HashTable Toolkit.Tiling PeerWire TorrentMeta PieceStore PieceShape
open PieceInvariant

section Loop

def nextOffset (length : Nat) (blockSize : UInt32) (offset : Nat) : Nat :=
  offset + (min blockSize (UInt32.ofNat (length - offset))).toNat

def offsetAfter (length : Nat) (blockSize : UInt32) (rounds : Nat) : Nat :=
  (nextOffset length blockSize)^[rounds] 0

def Advances (length : Nat) (blockSize : UInt32) : Prop :=
  ∀ rounds, offsetAfter length blockSize rounds < length →
    offsetAfter length blockSize rounds < offsetAfter length blockSize (rounds + 1)

def Stops (length : Nat) (blockSize : UInt32) : Prop :=
  ∃ rounds, length ≤ offsetAfter length blockSize rounds

theorem next_offset_past (length : Nat) (blockSize : UInt32) (offset : Nat)
    (past : length ≤ offset) : nextOffset length blockSize offset = offset := by
  rw [nextOffset, Nat.sub_eq_zero_of_le past, min_word_toNat]
  simp

theorem offset_after_succ (length : Nat) (blockSize : UInt32) (rounds : Nat) :
    offsetAfter length blockSize (rounds + 1) =
      nextOffset length blockSize (offsetAfter length blockSize rounds) :=
  Function.iterate_succ_apply' _ _ _

theorem offset_iterate_past (length : Nat) (blockSize : UInt32) (rounds offset : Nat)
    (past : length ≤ offset) : (nextOffset length blockSize)^[rounds] offset = offset := by
  induction rounds with
  | zero => rfl
  | succ rounds ih => rw [Function.iterate_succ_apply, next_offset_past _ _ _ past, ih]

theorem create_blocks_some_iff (index : UInt32) (length : Nat) (blockSize : UInt32)
    (fuel offset : Nat) (blocks : HashMap Nat Block) :
    (createBlocks index length blockSize fuel offset blocks).isSome ↔
      length ≤ (nextOffset length blockSize)^[fuel] offset := by
  induction fuel generalizing offset blocks with
  | zero =>
      by_cases inside : offset < length
      · rw [createBlocks, if_pos inside]
        exact iff_of_false Bool.false_ne_true (Nat.not_le_of_lt inside)
      · rw [createBlocks, if_neg inside]
        exact iff_of_true rfl (Nat.le_of_not_lt inside)
  | succ fuel ih =>
      by_cases inside : offset < length
      · rw [createBlocks, if_pos inside, Function.iterate_succ_apply]
        exact ih _ _
      · have past := Nat.le_of_not_lt inside
        rw [createBlocks, if_neg inside, offset_iterate_past _ _ _ _ past]
        exact iff_of_true rfl past

theorem next_offset_narrow (length : Nat) (blockSize : UInt32) (offset : Nat)
    (narrow : length < 2 ^ 32) :
    nextOffset length blockSize offset = offset + tile blockSize.toNat length offset := by
  rw [nextOffset, block_length_exact length offset blockSize narrow]

theorem advances_narrow (length : Nat) (blockSize : UInt32) (narrow : length < 2 ^ 32)
    (positive : 0 < blockSize.toNat) : Advances length blockSize := by
  intro rounds inside
  have more := tile_pos blockSize.toNat length _ positive inside
  rw [offset_after_succ, next_offset_narrow length blockSize _ narrow]
  omega

theorem stops_narrow (length : Nat) (blockSize : UInt32) (narrow : length < 2 ^ 32)
    (positive : 0 < blockSize.toNat) : Stops length blockSize := by
  obtain ⟨blocks, ended, -⟩ := create_blocks_exact 0 length blockSize narrow positive length 0 ∅
    (by omega) (aligned_zero _ _)
  refine ⟨length, ?_⟩
  apply (create_blocks_some_iff 0 length blockSize length 0 ∅).mp
  rw [ended]
  rfl

/-- From 2^32 bytes on the loop never gets closer than 2^32 to the end. -/
theorem never_stops_wide (length : Nat) (blockSize : UInt32) (wide : 2 ^ 32 ≤ length) :
    ¬ Stops length blockSize := by
  rintro ⟨rounds, past⟩
  have ended := (create_blocks_some_iff 0 length blockSize rounds 0 ∅).mpr past
  rw [create_blocks_wide 0 length blockSize rounds 0 ∅ wide] at ended
  cases ended

end Loop

section Manager

/-- `Piece::new` with so many iterations for its loop. -/
def newWithin (rounds : Nat) (index : UInt32) (length : Nat) (hash : Hash)
    (blockSize : UInt32) : Option Piece :=
  (createBlocks index length blockSize rounds 0 ∅).map fun blocks =>
    { index, length, hash, blocks, state := .missing, blockSize }

def createPiecesWithin (rounds : Nat) (info : Info) (blockSize : UInt32) :
    Nat → Option (HashMap UInt32 Piece)
  | 0 => some ∅
  | i + 1 =>
      match createPiecesWithin rounds info blockSize i with
      | none => none
      | some pieces =>
          match info.pieceHash i with
          | some pieceHash =>
              (newWithin rounds (UInt32.ofNat i) info.pieceLength pieceHash blockSize).map
                fun piece => pieces.insert (UInt32.ofNat i) piece
          | none => some pieces

def managerWithin (rounds : Nat) (torrent : Torrent) (blockSize : UInt32) :
    Option PieceManager :=
  (createPiecesWithin rounds torrent.info blockSize (torrent.info.rawPieces.length / 20)).map
    fun pieces => { pieces, torrent, blockSize }

def Terminates (torrent : Torrent) (blockSize : UInt32) : Prop :=
  ∃ rounds manager, managerWithin rounds torrent blockSize = some manager

theorem create_pieces_within (info : Info) (blockSize : UInt32) (count : Nat) :
    createPiecesWithin info.pieceLength info blockSize count =
      createPieces info blockSize count := by
  induction count with
  | zero => rfl
  | succ count ih =>
      rw [createPiecesWithin, createPieces, ih]
      rfl

theorem manager_within (torrent : Torrent) (blockSize : UInt32) :
    managerWithin torrent.info.pieceLength torrent blockSize =
      PieceManager.new torrent blockSize := by
  rw [managerWithin, create_pieces_within]
  rfl

theorem create_pieces_wide (rounds : Nat) (info : Info) (blockSize : UInt32)
    (wide : 2 ^ 32 ≤ info.pieceLength) (count : Nat) (some_hash : 0 < count)
    (hashes : count ≤ hashCount info) :
    createPiecesWithin rounds info blockSize count = none := by
  induction count with
  | zero => exact absurd some_hash (Nat.lt_irrefl 0)
  | succ count ih =>
      rw [createPiecesWithin]
      cases earlier : createPiecesWithin rounds info blockSize count with
      | none => rfl
      | some before =>
          obtain ⟨hash, known⟩ := piece_hash_isSome info count hashes
          simp only [known, newWithin,
            create_blocks_wide _ info.pieceLength blockSize rounds 0 ∅ wide, Option.map_none]

theorem no_hashes (info : Info) (whole : info.rawPieces.length % 20 = 0) :
    info.rawPieces = [] ↔ hashCount info = 0 := by
  rw [← List.length_eq_zero_iff, hashCount]
  omega

/-- On an accepted torrent the constructor of the manager ends exactly for pieces
shorter than 2^32 bytes, or without any hash; the loop of `Piece::new` advances and
stops exactly below 2^32 bytes. -/
theorem new_terminates_iff (b : Bencode) (torrent : Torrent)
    (accepted : Info.decode b = .ok torrent.info) (blockSize : UInt32)
    (block : 1 ≤ blockSize) :
    (Terminates torrent blockSize ↔
      torrent.info.pieceLength < 2 ^ 32 ∨ torrent.info.rawPieces = []) ∧
    ∀ length : UInt64, (Advances length.toNat blockSize ∧ Stops length.toNat blockSize) ↔
      length.toNat < 2 ^ 32 := by
  have positive : 0 < blockSize.toNat := UInt32.le_iff_toNat_le.mp block
  have whole := (info_decode_well_formed b torrent.info accepted).whole_hashes
  refine ⟨?_, fun length => ?_⟩
  · rw [no_hashes torrent.info whole]
    constructor
    · rintro ⟨rounds, manager, made⟩
      by_contra neither
      have wide : 2 ^ 32 ≤ torrent.info.pieceLength := by omega
      have stuck := create_pieces_wide rounds torrent.info blockSize wide
        (hashCount torrent.info) (by omega) (Nat.le_refl _)
      rw [hashCount] at stuck
      rw [managerWithin, stuck] at made
      cases made
    · rintro (narrow | empty)
      · obtain ⟨manager, made⟩ := manager_new_ends torrent blockSize positive narrow
        exact ⟨_, manager, by rw [manager_within, made]⟩
      · rw [hashCount] at empty
        exact ⟨0, ⟨∅, torrent, blockSize⟩, by rw [managerWithin, empty]; rfl⟩
  · constructor
    · rintro ⟨-, stops⟩
      by_contra wide
      exact never_stops_wide length.toNat blockSize (by omega) stops
    · intro narrow
      exact ⟨advances_narrow length.toNat blockSize narrow positive,
        stops_narrow length.toNat blockSize narrow positive⟩

def fiveByteDict (pieceLength : Nat) : Bencode :=
  .dict
    [(fromStr "length", .number 5), (fromStr "name", .byteString []),
      (fromStr "piece length", .number pieceLength),
      (fromStr "pieces", .byteString (List.replicate 20 0))]

def fiveByteTorrent (pieceLength : Nat) : Torrent :=
  { fourByteTorrent 5 (List.replicate 20 0) with
    info :=
      { name := [], pieceLength, rawPieces := List.replicate 20 0
        fileDetails := .singleFile 5, isPrivate := none, source := none } }

theorem new_terminates_five :
    (Terminates (fiveByteTorrent 5) 2 ↔
      5 < 2 ^ 32 ∨ (List.replicate 20 0 : Bytes) = []) ∧
    ∀ length : UInt64, (Advances length.toNat 2 ∧ Stops length.toNat 2) ↔
      length.toNat < 2 ^ 32 :=
  new_terminates_iff (fiveByteDict 5) (fiveByteTorrent 5) rfl 2 (by decide)

/-- A piece length of 2^32 is accepted, and the first block keeps the loop. -/
theorem wide_piece_runs_on :
    Info.decode (fiveByteDict (2 ^ 32)) = .ok (fiveByteTorrent (2 ^ 32)).info ∧
      (1 : UInt32) ≤ 16384 ∧ ¬ Terminates (fiveByteTorrent (2 ^ 32)) 16384 := by
  refine ⟨rfl, by decide, ?_⟩
  rintro ⟨rounds, manager, made⟩
  have stuck := create_pieces_wide rounds (fiveByteTorrent (2 ^ 32)).info 16384
    (Nat.le_refl _) 1 (by decide) (by decide)
  change Option.map _ (createPiecesWithin rounds _ _ 1) = some manager at made
  rw [stuck] at made
  cases made

end Manager

section Walks

structure Partitioned (length : Nat) (blockSize : UInt32) (piece : Piece) : Prop where
  keys : ∀ key, (∃ block, piece.blocks.lookup key = some block) ↔
    key < length ∧ blockSize.toNat ∣ key
  placed : ∀ key block, piece.blocks.lookup key = some block →
    block.offset = key ∧ block.length.toNat = min blockSize.toNat (length - key)
  covers : ∀ position, position < length → ∃! key, ∃ block,
    piece.blocks.lookup key = some block ∧ key ≤ position ∧
      position < key + block.length.toNat
  within : ∀ key block, piece.blocks.lookup key = some block →
    key + block.length.toNat ≤ length

theorem tiled_partitioned (piece : Piece) (tiled : Tiled piece)
    (positive : 0 < piece.blockSize.toNat) :
    Partitioned piece.length piece.blockSize piece := by
  have size : ∀ key block, piece.blocks.lookup key = some block →
      block.length.toNat = tile piece.blockSize.toNat piece.length key :=
    fun key block found => (tiled.entry key block found).2.2.2.2
  refine ⟨fun key => ⟨?_, ?_⟩, ?_, ?_, ?_⟩
  · rintro ⟨block, found⟩
    obtain ⟨inside, multiple, -⟩ := tiled.entry key block found
    exact ⟨inside, Nat.dvd_of_mod_eq_zero multiple⟩
  · rintro ⟨inside, multiple⟩
    exact tiled.covers key inside (Nat.mod_eq_zero_of_dvd multiple)
  · intro key block found
    obtain ⟨-, -, -, offset, length⟩ := tiled.entry key block found
    exact ⟨offset, length⟩
  · intro position inside
    obtain ⟨start, multiple, begins, ends⟩ :=
      covered piece.blockSize.toNat piece.length position positive inside
    obtain ⟨block, found⟩ := tiled.covers start (by omega) multiple
    refine ⟨start, ⟨block, found, begins, by rw [size start block found]; exact ends⟩, ?_⟩
    rintro other ⟨also, there, first, last⟩
    rw [size other also there] at last
    exact covered_once piece.blockSize.toNat piece.length position other start
      (tiled.entry other also there).2.1 multiple first last begins ends
  · intro key block found
    rw [size key block found]
    exact tile_end piece.blockSize.toNat piece.length key
      (Nat.le_of_lt (tiled.entry key block found).1)

theorem walks_agree (piece : Piece) (tiled : Tiled piece) (all : AllReceived piece)
    (exact : Exact piece) :
    ∃ data, piece.hashedData = .data data ∧ piece.storedData = .data data ∧
      data.length = piece.length := by
  obtain ⟨data, ended⟩ := (hashed_data_iff piece tiled).mpr all
  exact ⟨data, ended, (stored_eq_hashed piece tiled).trans ended,
    hashed_data_length piece tiled exact data ended⟩

theorem verify_hashes (sha1 : Bytes → Hash) (piece : Piece) (data : Bytes)
    (ended : piece.hashedData = .data data) :
    (piece.verify sha1).2 = decide (sha1 data = piece.hash) := by
  rw [Piece.verify, ended]
  by_cases same : sha1 data = piece.hash
  · simp only [if_pos same, decide_eq_true same]
  · simp only [if_neg same, decide_eq_false same]

theorem piece_data_stored (piece : Piece) (data : Bytes) (complete : piece.state = .complete)
    (ended : piece.storedData = .data data) : piece.getPieceData = some data := by
  rw [Piece.getPieceData, if_pos complete, ended]

/-- Below 2^32 bytes the constructor cuts the piece into its blocks, and over any
states of these blocks that hold all the data, `verify` hashes exactly the bytes that
`get_piece_data` returns. -/
theorem new_blocks_walked (index : UInt32) (length : Nat) (hash : Hash) (blockSize : UInt32)
    (narrow : length < 2 ^ 32) (positive : 1 ≤ blockSize) :
    ∃ made, Piece.new index length hash blockSize = some made ∧
      Partitioned length blockSize made ∧
      ∀ piece, SameShape made piece → AllReceived piece → Exact piece →
        ∃ data, piece.hashedData = .data data ∧ piece.storedData = .data data ∧
          data.length = length ∧
          (∀ sha1, (piece.verify sha1).2 = decide (sha1 data = hash)) ∧
          (piece.state = .complete → piece.getPieceData = some data) := by
  have some_block : 0 < blockSize.toNat := UInt32.le_iff_toNat_le.mp positive
  obtain ⟨made, built⟩ := Option.isSome_iff_exists.mp
    ((piece_new_some_iff index length hash blockSize).mpr (Or.inr ⟨some_block, narrow⟩))
  have fresh := piece_new_fresh index length hash blockSize made built
  refine ⟨made, built, ?_, ?_⟩
  · have cut := tiled_partitioned made fresh.tiled (by rwa [fresh.blockSize])
    rwa [fresh.length, fresh.blockSize] at cut
  · intro piece same all exact
    obtain ⟨data, hashed, stored, size⟩ :=
      walks_agree piece (tiled_same_shape made piece fresh.tiled same) all exact
    refine ⟨data, hashed, stored, ?_, ?_, ?_⟩
    · rw [size, same.length, fresh.length]
    · intro sha1
      rw [verify_hashes sha1 piece data hashed, same.hash, fresh.hash]
    · exact fun complete => piece_data_stored piece data complete stored

theorem new_blocks_walked_five :
    ∃ made, Piece.new 0 5 (Vector.replicate 20 0) 2 = some made ∧
      Partitioned 5 2 made ∧
      ∀ piece, SameShape made piece → AllReceived piece → Exact piece →
        ∃ data, piece.hashedData = .data data ∧ piece.storedData = .data data ∧
          data.length = 5 ∧
          (∀ sha1, (piece.verify sha1).2 = decide (sha1 data = Vector.replicate 20 0)) ∧
          (piece.state = .complete → piece.getPieceData = some data) :=
  new_blocks_walked 0 5 (Vector.replicate 20 0) 2 (by decide) (by decide)

end Walks

end MotteSeed.PieceBlocks
