import MotteSeed.PieceShape

/-! Where the pieces and blocks of a new manager lie in the torrent's bytes. Every
piece is built with the full piece length, so the layout is right exactly when the
last piece is a full one too. -/
namespace MotteSeed.PieceLayout
open Toolkit Toolkit.HashTable Toolkit.Tiling PeerWire TorrentMeta PieceStore PieceShape

def InBlock (manager : PieceManager) (place : UInt32 × Nat) (position : Nat) : Prop :=
  ∃ piece block, manager.pieces.lookup place.1 = some piece ∧
    piece.blocks.lookup place.2 = some block ∧
    place.1.toNat * manager.torrent.info.pieceLength + block.offset ≤ position ∧
    position < place.1.toNat * manager.torrent.info.pieceLength + block.offset +
      block.length.toNat

def pieceCount (info : Info) : Nat :=
  (info.fileDetails.totalSize + info.pieceLength - 1) / info.pieceLength

/-- The layout the torrent describes: its pieces, each with its own length and hash,
whose blocks cut the torrent's bytes. -/
structure Laid (manager : PieceManager) : Prop where
  indices : ∀ i, (∃ key piece, key.toNat = i ∧ manager.pieces.lookup key = some piece) ↔
    i < pieceCount manager.torrent.info
  pieces : ∀ key piece, manager.pieces.lookup key = some piece →
    piece.length = min manager.torrent.info.pieceLength
      (manager.torrent.info.fileDetails.totalSize -
        key.toNat * manager.torrent.info.pieceLength) ∧
    piece.hash.toList = ByteImage.slice manager.torrent.info.rawPieces (key.toNat * 20) 20
  covers : ∀ position, position < manager.torrent.info.fileDetails.totalSize →
    ∃! place, InBlock manager place position
  within : ∀ place position, InBlock manager place position →
    position < manager.torrent.info.fileDetails.totalSize

section Division

theorem count_exact (info : Info) (positive : 0 < info.pieceLength)
    (divides : info.pieceLength ∣ info.fileDetails.totalSize) :
    info.fileDetails.totalSize = info.pieceLength * pieceCount info := by
  obtain ⟨count, same⟩ := divides
  have split : pieceCount info = count := by
    rw [pieceCount, same, Nat.add_sub_assoc positive, Nat.mul_add_div positive,
      Nat.div_eq_of_lt (by omega), Nat.add_zero]
  rw [split, same]

theorem count_ragged (info : Info) (positive : 0 < info.pieceLength)
    (ragged : ¬ info.pieceLength ∣ info.fileDetails.totalSize) :
    ∃ last, last < pieceCount info ∧
      info.fileDetails.totalSize - last * info.pieceLength < info.pieceLength := by
  have split := Nat.div_add_mod info.fileDetails.totalSize info.pieceLength
  have small := Nat.mod_lt info.fileDetails.totalSize positive
  have rest : 0 < info.fileDetails.totalSize % info.pieceLength :=
    Nat.pos_of_ne_zero fun zero => ragged (Nat.dvd_of_mod_eq_zero zero)
  refine ⟨info.fileDetails.totalSize / info.pieceLength, ?_, ?_⟩
  · rw [pieceCount, Nat.lt_div_iff_mul_lt positive]
    rw [Nat.mul_comm] at split
    omega
  · rw [Nat.mul_comm] at split
    omega

end Division

section NewManager

variable (torrent : Torrent) (blockSize : UInt32) (manager : PieceManager)
  (made : PieceManager.new torrent blockSize = some manager)
  (narrow : hashCount torrent.info ≤ 2 ^ 32)
include made narrow

theorem new_piece_iff (key : UInt32) :
    (∃ piece, manager.pieces.lookup key = some piece) ↔ key.toNat < hashCount torrent.info := by
  constructor
  · rintro ⟨piece, found⟩
    obtain ⟨hash, known, -⟩ := manager_new_lookup torrent blockSize manager narrow made key piece
      found
    exact piece_hash_index torrent.info key.toNat hash known
  · intro less
    obtain ⟨piece, found⟩ := manager_new_has torrent blockSize manager made key.toNat less
    rw [UInt32.ofNat_toNat] at found
    exact ⟨piece, found⟩

theorem new_in_block_iff (place : UInt32 × Nat) (position : Nat) :
    InBlock manager place position ↔
      place.1.toNat < hashCount torrent.info ∧ place.2 < torrent.info.pieceLength ∧
        place.2 % blockSize.toNat = 0 ∧
        place.1.toNat * torrent.info.pieceLength + place.2 ≤ position ∧
        position < place.1.toNat * torrent.info.pieceLength + place.2 +
          tile blockSize.toNat torrent.info.pieceLength place.2 := by
  have owner := manager_new_torrent torrent blockSize manager made
  constructor
  · rintro ⟨piece, block, found, here, start, finish⟩
    obtain ⟨hash, known, built⟩ := manager_new_lookup torrent blockSize manager narrow made
      place.1 piece found
    have fresh := piece_new_fresh _ _ _ _ piece built
    obtain ⟨inside, multiple, -, offset, size⟩ := fresh.tiled.entry place.2 block here
    rw [fresh.length] at inside
    rw [fresh.blockSize] at multiple
    rw [fresh.blockSize, fresh.length] at size
    rw [owner, offset] at start finish
    rw [size] at finish
    exact ⟨piece_hash_index torrent.info _ hash known, inside, multiple, start, finish⟩
  · rintro ⟨less, inside, multiple, start, finish⟩
    obtain ⟨piece, found⟩ := (new_piece_iff torrent blockSize manager made narrow place.1).mpr less
    obtain ⟨hash, known, built⟩ := manager_new_lookup torrent blockSize manager narrow made
      place.1 piece found
    have fresh := piece_new_fresh _ _ _ _ piece built
    obtain ⟨block, here⟩ := fresh.tiled.covers place.2 (by rwa [fresh.length])
      (by rwa [fresh.blockSize])
    obtain ⟨-, -, -, offset, size⟩ := fresh.tiled.entry place.2 block here
    rw [fresh.blockSize, fresh.length] at size
    exact ⟨piece, block, found, here, by rwa [owner, offset], by rwa [owner, offset, size]⟩

theorem new_covers (positive : 0 < blockSize.toNat) (whole : 0 < torrent.info.pieceLength)
    (position : Nat)
    (inside : position < torrent.info.pieceLength * hashCount torrent.info) :
    ∃! place, InBlock manager place position := by
  -- The piece is the quotient by the piece length, the block lies over the remainder.
  have split := Nat.div_add_mod position torrent.info.pieceLength
  have small := Nat.mod_lt position whole
  have less : position / torrent.info.pieceLength < hashCount torrent.info :=
    Nat.div_lt_of_lt_mul inside
  have index := word_index _ _ less narrow
  rw [Nat.mul_comm] at split
  obtain ⟨offset, multiple, start, finish⟩ :=
    covered blockSize.toNat torrent.info.pieceLength _ positive small
  refine ⟨(UInt32.ofNat (position / torrent.info.pieceLength), offset), ?_, ?_⟩
  · apply (new_in_block_iff torrent blockSize manager made narrow _ position).mpr
    simp only [index]
    exact ⟨less, by omega, multiple, by omega, by omega⟩
  · rintro ⟨key, other⟩ there
    obtain ⟨-, within, also, first, last⟩ :=
      (new_in_block_iff torrent blockSize manager made narrow _ position).mp there
    dsimp only at within also first last
    -- No block reaches into the next piece, so the position gives the piece back.
    have room := tile_end blockSize.toNat torrent.info.pieceLength other (Nat.le_of_lt within)
    have same : key.toNat = position / torrent.info.pieceLength := by
      refine (Nat.div_eq_of_lt_le (by omega) ?_).symm
      rw [Nat.succ_mul]
      omega
    rw [same] at first last
    have offsets := covered_once blockSize.toNat torrent.info.pieceLength
      (position % torrent.info.pieceLength) other offset also multiple (by omega) (by omega)
      start finish
    have keys : key = UInt32.ofNat (position / torrent.info.pieceLength) :=
      UInt32.toNat.inj (by rw [same, index])
    rw [offsets, keys]

theorem new_within (position : Nat) (place : UInt32 × Nat)
    (there : InBlock manager place position) :
    position < torrent.info.pieceLength * hashCount torrent.info := by
  rw [new_in_block_iff torrent blockSize manager made narrow] at there
  obtain ⟨less, within, -, -, last⟩ := there
  have room := tile_end blockSize.toNat torrent.info.pieceLength place.2 (Nat.le_of_lt within)
  have scaled := Nat.mul_le_mul_left torrent.info.pieceLength (Nat.succ_le_of_lt less)
  rw [Nat.mul_succ, Nat.mul_comm _ place.1.toNat] at scaled
  omega

end NewManager

/-- A key cannot name a piece from index 2^32 on. -/
theorem laid_narrow (manager : PieceManager) (laid : Laid manager) :
    pieceCount manager.torrent.info ≤ 2 ^ 32 := by
  by_contra wide
  obtain ⟨key, -, same, -⟩ := (laid.indices (2 ^ 32)).mpr (by omega)
  have bound := key.toNat_lt
  omega

/-- Every piece has the full piece length, so a shorter last piece has no room. -/
theorem laid_divides (torrent : Torrent) (blockSize : UInt32) (manager : PieceManager)
    (made : PieceManager.new torrent blockSize = some manager)
    (positive : 0 < torrent.info.pieceLength) (laid : Laid manager) :
    torrent.info.pieceLength ∣ torrent.info.fileDetails.totalSize := by
  have owner := manager_new_torrent torrent blockSize manager made
  by_contra ragged
  obtain ⟨last, less, short⟩ := count_ragged torrent.info positive ragged
  obtain ⟨key, piece, rfl, found⟩ := (laid.indices last).mpr (by rwa [owner])
  obtain ⟨i, hash, -, -, -, built⟩ :=
    manager_new_from torrent blockSize manager made key piece found
  have fresh := piece_new_fresh _ _ _ _ piece built
  have size := (laid.pieces key piece found).1
  rw [fresh.length, owner] at size
  omega

theorem laid_of_divides (torrent : Torrent) (blockSize : UInt32) (manager : PieceManager)
    (made : PieceManager.new torrent blockSize = some manager)
    (positive : 0 < torrent.info.pieceLength) (block : 0 < blockSize.toNat)
    (hashes : hashCount torrent.info = pieceCount torrent.info)
    (divides : torrent.info.pieceLength ∣ torrent.info.fileDetails.totalSize)
    (narrow : pieceCount torrent.info ≤ 2 ^ 32) : Laid manager := by
  have owner := manager_new_torrent torrent blockSize manager made
  have total := count_exact torrent.info positive divides
  have words : hashCount torrent.info ≤ 2 ^ 32 := by rwa [hashes]
  refine ⟨?_, ?_, ?_, ?_⟩
  · intro i
    rw [owner, ← hashes]
    constructor
    · rintro ⟨key, piece, rfl, found⟩
      exact (new_piece_iff torrent blockSize manager made words key).mp ⟨piece, found⟩
    · intro less
      obtain ⟨piece, found⟩ := manager_new_has torrent blockSize manager made i less
      exact ⟨UInt32.ofNat i, piece, word_index i _ less words, found⟩
  · intro key piece found
    obtain ⟨hash, known, built⟩ :=
      manager_new_lookup torrent blockSize manager words made key piece found
    have fresh := piece_new_fresh _ _ _ _ piece built
    have less := piece_hash_index torrent.info key.toNat hash known
    have scaled := Nat.mul_le_mul_left torrent.info.pieceLength (Nat.succ_le_of_lt less)
    rw [Nat.mul_succ, hashes, ← total, Nat.mul_comm] at scaled
    rw [owner, fresh.length, fresh.hash]
    exact ⟨by omega, ((piece_hash_some_iff torrent.info key.toNat hash).mp known).2⟩
  · intro position inside
    rw [owner, total, ← hashes] at inside
    exact new_covers torrent blockSize manager made words block positive position inside
  · intro place position there
    have inside := new_within torrent blockSize manager made words position place there
    rwa [owner, total, ← hashes]

/-- A new manager lays the torrent out as described exactly when the total size is a
multiple of the piece length, in at most 2^32 pieces. -/
theorem new_laid_iff (torrent : Torrent) (blockSize : UInt32)
    (positive : 0 < torrent.info.pieceLength) (short : torrent.info.pieceLength < 2 ^ 32)
    (hashes : torrent.info.rawPieces.length = 20 * pieceCount torrent.info)
    (block : 1 ≤ blockSize) :
    (∃ manager, PieceManager.new torrent blockSize = some manager ∧ Laid manager) ↔
      torrent.info.pieceLength ∣ torrent.info.fileDetails.totalSize ∧
        pieceCount torrent.info ≤ 2 ^ 32 := by
  have some_block : 0 < blockSize.toNat := UInt32.le_iff_toNat_le.mp block
  have counted : hashCount torrent.info = pieceCount torrent.info := by
    unfold hashCount
    omega
  constructor
  · rintro ⟨manager, made, laid⟩
    have narrow := laid_narrow manager laid
    rw [manager_new_torrent torrent blockSize manager made] at narrow
    exact ⟨laid_divides torrent blockSize manager made positive laid, narrow⟩
  · rintro ⟨divides, narrow⟩
    obtain ⟨manager, made⟩ := manager_new_ends torrent blockSize some_block short
    exact ⟨manager, made, laid_of_divides torrent blockSize manager made positive some_block
      counted divides narrow⟩

theorem new_laid_four :
    (∃ manager, PieceManager.new (fourByteTorrent 4 (List.replicate 20 0)) 2 = some manager ∧
      Laid manager) ↔ 4 ∣ 4 ∧ pieceCount (fourByteTorrent 4 (List.replicate 20 0)).info ≤ 2 ^ 32 :=
  new_laid_iff (fourByteTorrent 4 (List.replicate 20 0)) 2 (by decide) (by decide) (by decide)
    (by decide)

/-- Five bytes in two pieces: the second piece is built with four bytes, not one. -/
theorem five_bytes_not_laid :
    (fourByteTorrent 5 (List.replicate 40 0)).info.rawPieces.length =
        20 * pieceCount (fourByteTorrent 5 (List.replicate 40 0)).info ∧
      ¬ ∃ manager, PieceManager.new (fourByteTorrent 5 (List.replicate 40 0)) 2 = some manager ∧
        Laid manager := by
  refine ⟨by decide, ?_⟩
  rintro ⟨manager, made, laid⟩
  have divides := laid_divides _ 2 manager made (by decide) laid
  revert divides
  decide

end MotteSeed.PieceLayout
