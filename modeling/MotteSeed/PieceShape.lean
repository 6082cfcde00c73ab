import MotteSeed.PieceStore
import MotteSeed.Toolkit.Tiling

/-! The blocks of a piece tile it. `Piece::new` either never ends or cuts the piece
at the multiples of the block size, and on such a piece the two walks over the
blocks visit the same blocks and stop. -/
namespace MotteSeed.PieceShape
open Toolkit Toolkit.HashTable Toolkit.Tiling PeerWire TorrentMeta PieceStore

/-- What `Piece::new` establishes and no later call changes. -/
structure Tiled (piece : Piece) : Prop where
  positive : 0 < piece.length → 0 < piece.blockSize.toNat
  narrow : piece.length < 2 ^ 32
  entry : ∀ offset block, piece.blocks.lookup offset = some block →
    offset < piece.length ∧ offset % piece.blockSize.toNat = 0 ∧ block.index = piece.index ∧
      block.offset = offset ∧
      block.length.toNat = tile piece.blockSize.toNat piece.length offset
  covers : ∀ offset, offset < piece.length → offset % piece.blockSize.toNat = 0 →
    ∃ block, piece.blocks.lookup offset = some block

section Creation

theorem min_word_toNat (a b : UInt32) : (min a b).toNat = min a.toNat b.toNat := by
  rw [Nat.min_def]
  show (if a ≤ b then a else b).toNat = _
  by_cases ordered : a ≤ b
  · rw [if_pos ordered, if_pos (UInt32.le_iff_toNat_le.mp ordered)]
  · rw [if_neg ordered, if_neg (fun h => ordered (UInt32.le_iff_toNat_le.mpr h))]

theorem block_length_exact (length offset : Nat) (blockSize : UInt32)
    (narrow : length < 2 ^ 32) :
    (min blockSize (UInt32.ofNat (length - offset))).toNat =
      tile blockSize.toNat length offset := by
  rw [min_word_toNat, UInt32.toNat_ofNat', Nat.mod_eq_of_lt (by omega)]
  rfl

theorem create_blocks_exact (index : UInt32) (length : Nat) (blockSize : UInt32)
    (narrow : length < 2 ^ 32) (positive : 0 < blockSize.toNat)
    (fuel offset : Nat) (blocks : HashMap Nat Block) (enough : length - offset ≤ fuel)
    (aligned : Aligned blockSize.toNat length offset) :
    ∃ result, createBlocks index length blockSize fuel offset blocks = some result ∧
      ∀ key, result.lookup key =
        if offset ≤ key ∧ key < length ∧ key % blockSize.toNat = 0 then
          some (Block.new index key (min blockSize (UInt32.ofNat (length - key))))
        else blocks.lookup key := by
  induction fuel generalizing offset blocks with
  | zero =>
      have past : ¬ offset < length := by omega
      refine ⟨blocks, by rw [createBlocks, if_neg past], fun key => ?_⟩
      rw [if_neg (by omega)]
  | succ fuel ih =>
      by_cases inside : offset < length
      · have multiple : offset % blockSize.toNat = 0 := by
          rcases aligned with multiple | past
          · exact multiple
          · omega
        have advance := tile_pos blockSize.toNat length offset positive inside
        have size := block_length_exact length offset blockSize narrow
        obtain ⟨result, made, looked⟩ := ih (offset + tile blockSize.toNat length offset)
          (blocks.insert offset
            (Block.new index offset (min blockSize (UInt32.ofNat (length - offset)))))
          (by omega) (aligned_next blockSize.toNat length offset multiple)
        refine ⟨result, by simpa only [createBlocks, if_pos inside, size] using made, ?_⟩
        intro key
        rw [looked key]
        -- Later rounds insert at later offsets, so the block of this round stays.
        by_cases here : key = offset
        · subst here
          rw [if_neg (by omega), if_pos ⟨Nat.le_refl key, inside, multiple⟩,
            AList.lookup_insert]
        · rw [AList.lookup_insert_ne here]
          by_cases later : offset ≤ key ∧ key < length ∧ key % blockSize.toNat = 0
          · have step := next_start blockSize.toNat offset key multiple later.2.2 (by omega)
            have shorter : tile blockSize.toNat length offset ≤ blockSize.toNat :=
              Nat.min_le_left _ _
            rw [if_pos later, if_pos ⟨by omega, later.2⟩]
          · rw [if_neg later, if_neg (fun both => later ⟨by omega, both.2⟩)]
      · refine ⟨blocks, by rw [createBlocks, if_neg inside], fun key => ?_⟩
        rw [if_neg (by omega)]

/-- With 2^32 bytes or more to go, the truncated remainder never brings the loop
below that distance. -/
theorem create_blocks_wide (index : UInt32) (length : Nat) (blockSize : UInt32)
    (fuel offset : Nat) (blocks : HashMap Nat Block) (wide : 2 ^ 32 ≤ length - offset) :
    createBlocks index length blockSize fuel offset blocks = none := by
  induction fuel generalizing offset blocks with
  | zero => rw [createBlocks, if_pos (by omega)]
  | succ fuel ih =>
      rw [createBlocks, if_pos (by omega)]
      apply ih
      have bound : (min blockSize (UInt32.ofNat (length - offset))).toNat ≤
          (length - offset) % 2 ^ 32 := by
        rw [min_word_toNat, UInt32.toNat_ofNat']
        exact Nat.min_le_right _ _
      omega

theorem create_blocks_zero (index : UInt32) (length fuel offset : Nat)
    (blocks : HashMap Nat Block) (inside : offset < length) :
    createBlocks index length 0 fuel offset blocks = none := by
  induction fuel generalizing blocks with
  | zero => rw [createBlocks, if_pos inside]
  | succ fuel ih =>
      rw [createBlocks, if_pos inside]
      have still : (min (0 : UInt32) (UInt32.ofNat (length - offset))).toNat = 0 := by
        rw [min_word_toNat]
        simp
      simp only [still, Nat.add_zero]
      exact ih _

theorem piece_new_some_iff (index : UInt32) (length : Nat) (hash : Hash)
    (blockSize : UInt32) :
    (Piece.new index length hash blockSize).isSome ↔
      length = 0 ∨ (0 < blockSize.toNat ∧ length < 2 ^ 32) := by
  simp only [Piece.new, Option.isSome_map]
  by_cases empty : length = 0
  · subst empty
    simp [createBlocks]
  by_cases positive : 0 < blockSize.toNat
  · by_cases narrow : length < 2 ^ 32
    · obtain ⟨result, made, -⟩ := create_blocks_exact index length blockSize narrow positive
        length 0 ∅ (by omega) (aligned_zero _ _)
      rw [made]
      exact iff_of_true rfl (Or.inr ⟨positive, narrow⟩)
    · rw [create_blocks_wide index length blockSize length 0 ∅ (by omega)]
      exact iff_of_false Bool.false_ne_true (by omega)
  · have zero : blockSize = 0 := UInt32.toNat.inj (by simpa using positive)
    subst zero
    rw [create_blocks_zero index length length 0 ∅ (by omega)]
    simp [empty]

theorem piece_new_blocks (index : UInt32) (length : Nat) (hash : Hash) (blockSize : UInt32)
    (piece : Piece) (made : Piece.new index length hash blockSize = some piece) (key : Nat) :
    piece.blocks.lookup key =
      if key < length ∧ key % blockSize.toNat = 0 then
        some (Block.new index key (min blockSize (UInt32.ofNat (length - key))))
      else none := by
  have ends := (piece_new_some_iff index length hash blockSize).mp (by simp [made])
  simp only [Piece.new, Option.map_eq_some_iff] at made
  obtain ⟨blocks, created, rfl⟩ := made
  rcases ends with rfl | ⟨positive, narrow⟩
  · obtain rfl : ∅ = blocks := by simpa [createBlocks] using created
    simp
  · obtain ⟨result, again, looked⟩ := create_blocks_exact index length blockSize narrow positive
      length 0 ∅ (by omega) (aligned_zero _ _)
    obtain rfl : result = blocks := Option.some.inj (again.symm.trans created)
    simpa using looked key

structure Fresh (index : UInt32) (length : Nat) (hash : Hash) (blockSize : UInt32)
    (piece : Piece) : Prop where
  index : piece.index = index
  length : piece.length = length
  hash : piece.hash = hash
  blockSize : piece.blockSize = blockSize
  state : piece.state = .missing
  tiled : Tiled piece
  missing : ∀ offset block, piece.blocks.lookup offset = some block → block.state = .missing

theorem piece_new_fresh (index : UInt32) (length : Nat) (hash : Hash) (blockSize : UInt32)
    (piece : Piece) (made : Piece.new index length hash blockSize = some piece) :
    Fresh index length hash blockSize piece := by
  have ends := (piece_new_some_iff index length hash blockSize).mp (by simp [made])
  have looked := piece_new_blocks index length hash blockSize piece made
  simp only [Piece.new, Option.map_eq_some_iff] at made
  obtain ⟨blocks, -, rfl⟩ := made
  have narrow : length < 2 ^ 32 := by omega
  refine ⟨rfl, rfl, rfl, rfl, rfl, ⟨by dsimp only; omega, narrow, ?_, ?_⟩, ?_⟩
  · intro offset block found
    rw [looked offset] at found
    split at found
    · rename_i inside
      obtain rfl := Option.some.inj found
      exact ⟨inside.1, inside.2, rfl, rfl, block_length_exact length offset blockSize narrow⟩
    · cases found
  · intro offset inside multiple
    exact ⟨_, by rw [looked offset, if_pos ⟨inside, multiple⟩]⟩
  · intro offset block found
    rw [looked offset] at found
    split at found
    · obtain rfl := Option.some.inj found
      rfl
    · cases found

end Creation

section Walks

def AllReceived (piece : Piece) : Prop :=
  ∀ offset block, piece.blocks.lookup offset = some block → ∃ bytes, block.state = .received bytes

def Exact (piece : Piece) : Prop :=
  ∀ offset block bytes, piece.blocks.lookup offset = some block →
    block.state = .received bytes → bytes.length = block.length.toNat

theorem gather_end (blocks : HashMap Nat Block) (length : Nat) (stride : Block → UInt32)
    (fuel offset : Nat) (buf : Bytes) (past : length ≤ offset) :
    gather blocks length stride fuel offset buf = .data buf := by
  cases fuel <;> rw [gather, if_neg (by omega)]

theorem gather_step (blocks : HashMap Nat Block) (length : Nat) (stride : Block → UInt32)
    (fuel offset : Nat) (buf bytes : Bytes) (block : Block) (inside : offset < length)
    (found : blocks.lookup offset = some block) (received : block.state = .received bytes) :
    gather blocks length stride (fuel + 1) offset buf =
      gather blocks length stride fuel (offset + (stride block).toNat) (buf ++ bytes) := by
  rw [gather, if_pos inside]
  simp only [found, received]

theorem aligned_inside (size total offset : Nat) (aligned : Aligned size total offset)
    (inside : offset < total) : offset % size = 0 := by
  rcases aligned with multiple | past
  · exact multiple
  · omega

/-- The stride of `verify` and the stride of `get_piece_data` differ only in the
last block, where both leave the piece. -/
theorem gather_same (piece : Piece) (tiled : Tiled piece) (fuel offset : Nat) (buf : Bytes)
    (aligned : Aligned piece.blockSize.toNat piece.length offset) :
    gather piece.blocks piece.length Block.length fuel offset buf =
      gather piece.blocks piece.length (fun _ => piece.blockSize) fuel offset buf := by
  induction fuel generalizing offset buf with
  | zero => rw [gather, gather]
  | succ fuel ih =>
      by_cases inside : offset < piece.length
      · obtain ⟨block, found⟩ := tiled.covers offset inside
          (aligned_inside _ _ offset aligned inside)
        cases received : block.state with
        | received bytes =>
            rw [gather_step _ _ _ fuel offset buf bytes block inside found received,
              gather_step _ _ _ fuel offset buf bytes block inside found received]
            obtain ⟨-, multiple, -, -, size⟩ := tiled.entry offset block found
            -- A full block has both strides equal; behind a short one both walks have ended.
            by_cases whole : piece.blockSize.toNat ≤ piece.length - offset
            · rw [size, tile, Nat.min_eq_left whole]
              exact ih _ _ (aligned_stride _ _ offset multiple)
            · rw [size, tile, Nat.min_eq_right (by omega), gather_end _ _ _ _ _ _ (by omega),
                gather_end _ _ _ _ _ _ (by omega)]
        | missing | requested | written => simp only [gather, if_pos inside, found, received]
      · rw [gather_end _ _ _ _ _ _ (by omega), gather_end _ _ _ _ _ _ (by omega)]

theorem gather_done (piece : Piece) (tiled : Tiled piece) (all : AllReceived piece)
    (fuel offset : Nat) (buf : Bytes) (enough : piece.length - offset ≤ fuel)
    (aligned : Aligned piece.blockSize.toNat piece.length offset) :
    ∃ rest, gather piece.blocks piece.length (fun _ => piece.blockSize) fuel offset buf =
      .data (buf ++ rest) ∧ (Exact piece → rest.length = piece.length - offset) := by
  induction fuel generalizing offset buf with
  | zero =>
      refine ⟨[], by rw [gather_end _ _ _ _ _ _ (by omega), List.append_nil], fun _ => ?_⟩
      simp only [List.length_nil]
      omega
  | succ fuel ih =>
      by_cases inside : offset < piece.length
      · have multiple := aligned_inside _ _ offset aligned inside
        have advance := tiled.positive (by omega)
        obtain ⟨block, found⟩ := tiled.covers offset inside multiple
        obtain ⟨bytes, received⟩ := all offset block found
        obtain ⟨rest, ended, size⟩ := ih (offset + piece.blockSize.toNat) (buf ++ bytes)
          (by omega) (aligned_stride _ _ offset multiple)
        refine ⟨bytes ++ rest, ?_, fun exact => ?_⟩
        · rw [gather_step _ _ _ fuel offset buf bytes block inside found received, ended,
            List.append_assoc]
        -- A short block ends the piece, so the stride past its end adds nothing.
        · obtain ⟨-, -, -, -, length⟩ := tiled.entry offset block found
          rw [List.length_append, size exact, exact offset block bytes found received, length,
            tile]
          omega
      · refine ⟨[], by rw [gather_end _ _ _ _ _ _ (by omega), List.append_nil], fun _ => ?_⟩
        simp only [List.length_nil]
        omega

theorem gather_received (piece : Piece) (tiled : Tiled piece) (fuel offset : Nat)
    (buf bytes : Bytes)
    (ended : gather piece.blocks piece.length (fun _ => piece.blockSize) fuel offset buf =
      .data bytes)
    (aligned : Aligned piece.blockSize.toNat piece.length offset) (key : Nat) (block : Block)
    (later : offset ≤ key) (found : piece.blocks.lookup key = some block) :
    ∃ bytes, block.state = .received bytes := by
  obtain ⟨within, also, -⟩ := tiled.entry key block found
  have inside : offset < piece.length := by omega
  have multiple := aligned_inside _ _ offset aligned inside
  induction fuel generalizing offset buf with
  | zero =>
      rw [gather, if_pos inside] at ended
      cases ended
  | succ fuel ih =>
      obtain ⟨first, here⟩ := tiled.covers offset inside multiple
      cases received : first.state with
      | received chunk =>
          by_cases same : key = offset
          · subst same
            obtain rfl := Option.some.inj (found.symm.trans here)
            exact ⟨chunk, received⟩
          · rw [gather_step _ _ _ fuel offset buf chunk first inside here received] at ended
            -- The next start after this one is where the walk goes on, so no key is skipped.
            have step := next_start _ offset key multiple also (by omega)
            exact ih (offset + piece.blockSize.toNat) _ ended
              (aligned_stride _ _ offset multiple) (by omega) (by omega)
              (by rw [Nat.add_mod_right, multiple])
      | missing | requested | written =>
          simp only [gather, if_pos inside, here, received] at ended
          cases ended

theorem gather_stops (piece : Piece) (tiled : Tiled piece) (fuel offset : Nat) (buf : Bytes)
    (enough : piece.length - offset ≤ fuel)
    (aligned : Aligned piece.blockSize.toNat piece.length offset) :
    gather piece.blocks piece.length (fun _ => piece.blockSize) fuel offset buf ≠ .running := by
  induction fuel generalizing offset buf with
  | zero =>
      rw [gather_end _ _ _ _ _ _ (by omega)]
      exact Gathered.noConfusion
  | succ fuel ih =>
      by_cases inside : offset < piece.length
      · have multiple := aligned_inside _ _ offset aligned inside
        have advance := tiled.positive (by omega)
        obtain ⟨block, found⟩ := tiled.covers offset inside multiple
        cases received : block.state with
        | received bytes =>
            rw [gather_step _ _ _ fuel offset buf bytes block inside found received]
            exact ih _ _ (by omega) (aligned_stride _ _ offset multiple)
        | missing | requested | written =>
            simp only [gather, if_pos inside, found, received]
            exact Gathered.noConfusion
      · rw [gather_end _ _ _ _ _ _ (by omega)]
        exact Gathered.noConfusion

theorem stored_eq_hashed (piece : Piece) (tiled : Tiled piece) :
    piece.storedData = piece.hashedData :=
  gather_same piece tiled piece.length 0 [] (aligned_zero _ _)

theorem walks_stop (piece : Piece) (tiled : Tiled piece) :
    piece.hashedData ≠ .running ∧ piece.storedData ≠ .running := by
  have stops := gather_stops piece tiled piece.length 0 [] (by omega) (aligned_zero _ _)
  exact ⟨stops, by rw [stored_eq_hashed piece tiled]; exact stops⟩

theorem hashed_data_iff (piece : Piece) (tiled : Tiled piece) :
    (∃ data, piece.hashedData = .data data) ↔ AllReceived piece := by
  constructor
  · rintro ⟨data, ended⟩ key block found
    exact gather_received piece tiled piece.length 0 [] data ended (aligned_zero _ _) key block
      (Nat.zero_le key) found
  · intro all
    obtain ⟨rest, ended, -⟩ := gather_done piece tiled all piece.length 0 [] (by omega)
      (aligned_zero _ _)
    exact ⟨rest, ended⟩

theorem hashed_data_length (piece : Piece) (tiled : Tiled piece) (exact : Exact piece)
    (data : Bytes) (ended : piece.hashedData = .data data) : data.length = piece.length := by
  have all := (hashed_data_iff piece tiled).mp ⟨data, ended⟩
  obtain ⟨rest, again, size⟩ := gather_done piece tiled all piece.length 0 [] (by omega)
    (aligned_zero _ _)
  obtain rfl : rest = data := Gathered.data.inj (again.symm.trans ended)
  exact size exact

end Walks

section Manager

theorem create_pieces_succ (info : Info) (blockSize : UInt32) (count : Nat)
    (pieces : HashMap UInt32 Piece)
    (made : createPieces info blockSize (count + 1) = some pieces) :
    ∃ before, createPieces info blockSize count = some before ∧
      ((info.pieceHash count = none ∧ before = pieces) ∨
        ∃ hash piece, info.pieceHash count = some hash ∧
          Piece.new (UInt32.ofNat count) info.pieceLength hash blockSize = some piece ∧
          before.insert (UInt32.ofNat count) piece = pieces) := by
  simp only [createPieces] at made
  cases earlier : createPieces info blockSize count with
  | none => simp [earlier] at made
  | some before =>
      simp only [earlier] at made
      refine ⟨before, rfl, ?_⟩
      cases known : info.pieceHash count with
      | none =>
          simp only [known, Option.some.injEq] at made
          exact Or.inl ⟨rfl, made⟩
      | some hash =>
          simp only [known, Option.map_eq_some_iff] at made
          obtain ⟨piece, built, inserted⟩ := made
          exact Or.inr ⟨hash, piece, rfl, built, inserted⟩

theorem create_pieces_from (info : Info) (blockSize : UInt32) (count : Nat)
    (pieces : HashMap UInt32 Piece) (made : createPieces info blockSize count = some pieces)
    (key : UInt32) (piece : Piece) (found : pieces.lookup key = some piece) :
    ∃ i hash, i < count ∧ key = UInt32.ofNat i ∧ info.pieceHash i = some hash ∧
      Piece.new key info.pieceLength hash blockSize = some piece := by
  induction count generalizing pieces with
  | zero =>
      obtain rfl : ∅ = pieces := by simpa [createPieces] using made
      cases found
  | succ count ih =>
      obtain ⟨before, earlier, step⟩ := create_pieces_succ info blockSize count pieces made
      rcases step with ⟨-, rfl⟩ | ⟨hash, last, known, built, rfl⟩
      · obtain ⟨i, hash, less, rest⟩ := ih before earlier found
        exact ⟨i, hash, Nat.lt_succ_of_lt less, rest⟩
      · by_cases here : key = UInt32.ofNat count
        · subst here
          rw [AList.lookup_insert] at found
          obtain rfl := Option.some.inj found
          exact ⟨count, hash, Nat.lt_succ_self count, rfl, known, built⟩
        · rw [AList.lookup_insert_ne here] at found
          obtain ⟨i, hash, less, rest⟩ := ih before earlier found
          exact ⟨i, hash, Nat.lt_succ_of_lt less, rest⟩

theorem create_pieces_has (info : Info) (blockSize : UInt32) (count : Nat)
    (pieces : HashMap UInt32 Piece) (made : createPieces info blockSize count = some pieces)
    (i : Nat) (less : i < count) (hash : Hash) (known : info.pieceHash i = some hash) :
    ∃ piece, pieces.lookup (UInt32.ofNat i) = some piece := by
  induction count generalizing pieces with
  | zero => omega
  | succ count ih =>
      obtain ⟨before, earlier, step⟩ := create_pieces_succ info blockSize count pieces made
      rcases step with ⟨missing, rfl⟩ | ⟨lastHash, piece, last, built, rfl⟩
      · have different : i ≠ count := by
          rintro rfl
          rw [known] at missing
          cases missing
        exact ih before earlier (by omega)
      · by_cases same : UInt32.ofNat i = UInt32.ofNat count
        · exact ⟨piece, by rw [same, AList.lookup_insert]⟩
        · have different : i ≠ count := fun equal => same (congrArg UInt32.ofNat equal)
          obtain ⟨found, there⟩ := ih before earlier (by omega)
          exact ⟨found, by rw [AList.lookup_insert_ne same, there]⟩

theorem create_pieces_ends (info : Info) (blockSize : UInt32) (count : Nat)
    (ends : info.pieceLength = 0 ∨ (0 < blockSize.toNat ∧ info.pieceLength < 2 ^ 32)) :
    ∃ pieces, createPieces info blockSize count = some pieces := by
  induction count with
  | zero => exact ⟨∅, rfl⟩
  | succ count ih =>
      obtain ⟨before, earlier⟩ := ih
      simp only [createPieces, earlier]
      cases known : info.pieceHash count with
      | none => exact ⟨before, rfl⟩
      | some hash =>
          have built := (piece_new_some_iff (UInt32.ofNat count) info.pieceLength hash
            blockSize).mpr ends
          obtain ⟨piece, made⟩ := Option.isSome_iff_exists.mp built
          exact ⟨before.insert (UInt32.ofNat count) piece, by simp [made]⟩

def hashCount (info : Info) : Nat := info.rawPieces.length / 20

theorem piece_hash_index (info : Info) (i : Nat) (hash : Hash)
    (known : info.pieceHash i = some hash) : i < hashCount info := by
  have room := ((piece_hash_some_iff info i hash).mp known).1
  unfold hashCount
  omega

theorem manager_new_torrent (torrent : Torrent) (blockSize : UInt32) (manager : PieceManager)
    (made : PieceManager.new torrent blockSize = some manager) : manager.torrent = torrent := by
  simp only [PieceManager.new, Option.map_eq_some_iff] at made
  obtain ⟨pieces, -, rfl⟩ := made
  rfl

theorem manager_new_from (torrent : Torrent) (blockSize : UInt32) (manager : PieceManager)
    (made : PieceManager.new torrent blockSize = some manager) (key : UInt32) (piece : Piece)
    (found : manager.pieces.lookup key = some piece) :
    ∃ i hash, i < hashCount torrent.info ∧ key = UInt32.ofNat i ∧
      torrent.info.pieceHash i = some hash ∧
      Piece.new key torrent.info.pieceLength hash blockSize = some piece := by
  simp only [PieceManager.new, Option.map_eq_some_iff] at made
  obtain ⟨pieces, created, rfl⟩ := made
  exact create_pieces_from torrent.info blockSize _ pieces created key piece found

theorem word_index (i count : Nat) (less : i < count) (narrow : count ≤ 2 ^ 32) :
    (UInt32.ofNat i).toNat = i := by
  rw [UInt32.toNat_ofNat', Nat.mod_eq_of_lt (by omega)]

/-- With at most 2^32 hashes a key is the index of its piece. -/
theorem manager_new_lookup (torrent : Torrent) (blockSize : UInt32) (manager : PieceManager)
    (narrow : hashCount torrent.info ≤ 2 ^ 32)
    (made : PieceManager.new torrent blockSize = some manager) (key : UInt32) (piece : Piece)
    (found : manager.pieces.lookup key = some piece) :
    ∃ hash, torrent.info.pieceHash key.toNat = some hash ∧
      Piece.new key torrent.info.pieceLength hash blockSize = some piece := by
  obtain ⟨i, hash, less, rfl, known, built⟩ :=
    manager_new_from torrent blockSize manager made key piece found
  rw [word_index i _ less narrow]
  exact ⟨hash, known, built⟩

theorem manager_new_has (torrent : Torrent) (blockSize : UInt32) (manager : PieceManager)
    (made : PieceManager.new torrent blockSize = some manager) (i : Nat)
    (less : i < hashCount torrent.info) :
    ∃ piece, manager.pieces.lookup (UInt32.ofNat i) = some piece := by
  obtain ⟨hash, known⟩ := piece_hash_isSome torrent.info i less
  simp only [PieceManager.new, Option.map_eq_some_iff] at made
  obtain ⟨pieces, created, rfl⟩ := made
  exact create_pieces_has torrent.info blockSize _ pieces created i less hash known

theorem manager_new_ends (torrent : Torrent) (blockSize : UInt32)
    (positive : 0 < blockSize.toNat) (narrow : torrent.info.pieceLength < 2 ^ 32) :
    ∃ manager, PieceManager.new torrent blockSize = some manager := by
  obtain ⟨pieces, created⟩ := create_pieces_ends torrent.info blockSize
    (torrent.info.rawPieces.length / 20) (Or.inr ⟨positive, narrow⟩)
  exact ⟨⟨pieces, torrent, blockSize⟩, by simp [PieceManager.new, created]⟩

end Manager

end MotteSeed.PieceShape
