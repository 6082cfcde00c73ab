import MotteSeed.DownloadSafety

/-! The piece manager on its own: any sequence of requests, deliveries and marks.
Whatever the calls are, a piece whose blocks are all received is complete and its
data has the right hash, and the download manager makes no other changes to the
pieces. Last, the deliveries that leave every state as it was. -/
namespace MotteSeed.PieceCalls
open Toolkit Toolkit.HashTable Toolkit.Runs PeerWire TorrentMeta PieceStore PieceShape
  PieceInvariant Downloads DownloadSafety

inductive PieceCall where
  | requestBlock (pieceIndex : UInt32) (offset : Nat) (peerIp : PeerIp) (now : Nat)
  | receiveBlock (pieceIndex : UInt32) (offset : Nat) (data : Bytes)
  | markPieceWritten (pieceIndex : UInt32)

section Calls

variable (sha1 : Bytes → Hash)

def performPiece (manager : PieceManager) : PieceCall → PieceManager × List Bool
  | .requestBlock pieceIndex offset peerIp now =>
      (manager.requestBlock pieceIndex offset peerIp now, [])
  | .receiveBlock pieceIndex offset data =>
      let received := manager.receiveBlock sha1 pieceIndex offset data
      (received.1, [received.2])
  | .markPieceWritten pieceIndex => (manager.markPieceWritten pieceIndex, [])

def pieceCalls : Machine PieceManager PieceCall Bool :=
  ⟨fun manager call => some (performPiece sha1 manager call)⟩

inductive PieceStep (piece : Piece) : Piece → Prop where
  | kept : PieceStep piece piece
  | requested (offset : Nat) (peerIp : PeerIp) (now : Nat) :
      PieceStep piece (piece.requestFromPeer offset peerIp now)
  | received (offset : Nat) (data : Bytes) : PieceStep piece (piece.receiveBlock sha1 offset data).1
  | written : PieceStep piece piece.maskWritten

theorem modified_step (pieces : HashMap UInt32 Piece) (index key : UInt32)
    (change : Piece → Piece) (steps : ∀ piece, PieceStep sha1 piece (change piece))
    (after : Piece) (found : (modify pieces index change).lookup key = some after) :
    ∃ piece, pieces.lookup key = some piece ∧ PieceStep sha1 piece after := by
  rcases lookup_modify_some _ _ _ _ _ found with ⟨rfl, piece, present, rfl⟩ | ⟨-, same⟩
  · exact ⟨piece, present, steps piece⟩
  · exact ⟨after, same, .kept⟩

theorem receive_block_found (manager : PieceManager) (index : UInt32) (offset : Nat)
    (data : Bytes) (piece : Piece) (found : manager.pieces.lookup index = some piece) :
    (manager.receiveBlock sha1 index offset data).1.pieces =
      modify manager.pieces index fun piece => (piece.receiveBlock sha1 offset data).1 := by
  simp only [PieceManager.receiveBlock, found]

theorem receive_block_absent (manager : PieceManager) (index : UInt32) (offset : Nat)
    (data : Bytes) (absent : manager.pieces.lookup index = none) :
    manager.receiveBlock sha1 index offset data = (manager, false) := by
  simp only [PieceManager.receiveBlock, absent]

theorem call_step (manager : PieceManager) (call : PieceCall) (key : UInt32) (after : Piece)
    (found : (performPiece sha1 manager call).1.pieces.lookup key = some after) :
    ∃ piece, manager.pieces.lookup key = some piece ∧ PieceStep sha1 piece after := by
  cases call with
  | requestBlock index offset peerIp now =>
      exact modified_step sha1 _ _ _ _ (fun _ => .requested offset peerIp now) after found
  | markPieceWritten index => exact modified_step sha1 _ _ _ _ (fun _ => .written) after found
  | receiveBlock index offset data =>
      cases present : manager.pieces.lookup index with
      | none =>
          simp only [performPiece, receive_block_absent sha1 manager index offset data present]
            at found
          exact ⟨after, found, .kept⟩
      | some piece =>
          simp only [performPiece,
            receive_block_found sha1 manager index offset data piece present] at found
          exact modified_step sha1 _ _ _ _ (fun _ => .received offset data) after found

theorem piece_run (holds : UInt32 → Piece → Prop)
    (keeps : ∀ key piece after, holds key piece → PieceStep sha1 piece after → holds key after)
    (start finish : PieceManager) (calls : List PieceCall) (log : List Bool)
    (initial : ∀ key piece, start.pieces.lookup key = some piece → holds key piece)
    (ran : run (pieceCalls sha1) start calls = some (finish, log)) (key : UInt32) (piece : Piece)
    (found : finish.pieces.lookup key = some piece) : holds key piece := by
  refine run_state_invariant (pieceCalls sha1)
    (fun manager => ∀ key piece, manager.pieces.lookup key = some piece → holds key piece)
    ?_ start finish calls log initial ran key piece found
  intro manager call next replies before performed key after found
  have same : performPiece sha1 manager call = (next, replies) := Option.some.inj performed
  obtain ⟨piece, present, step⟩ := call_step sha1 manager call key after (by rw [same]; exact found)
  exact keeps key piece after (before key piece present) step

end Calls

section Settled

variable (sha1 : Bytes → Hash)

/-- A piece never stays fully received without being complete, and then its data is
the expected one. A complete piece may have lost blocks to a later request. -/
structure Settled (piece : Piece) : Prop where
  tiled : Tiled piece
  unwritten : ∀ offset block, piece.blocks.lookup offset = some block → block.state ≠ .written
  settled : ∀ offset block, piece.blocks.lookup offset = some block → AllReceived piece →
    piece.isComplete = true ∧ ∃ data, piece.hashedData = .data data ∧ sha1 data = piece.hash

theorem request_settled (piece : Piece) (offset : Nat) (peerIp : PeerIp) (now : Nat)
    (holds : Settled sha1 piece) : Settled sha1 (piece.requestFromPeer offset peerIp now) := by
  cases present : piece.blocks.lookup offset with
  | none =>
      have same : piece.requestFromPeer offset peerIp now = piece := by
        have kept := modify_self piece.blocks offset
          (fun block => block.requestFromPeer peerIp now) (by simp [present])
        simp only [Piece.requestFromPeer, kept]
      rwa [same]
  | some block =>
      refine ⟨tiled_same_shape _ _ holds.tiled (request_same_shape piece offset peerIp now), ?_, ?_⟩
      · intro key other found
        rcases lookup_modify_some _ _ _ _ _ found with ⟨-, old, -, rfl⟩ | ⟨-, same⟩
        · exact BlockState.noConfusion
        · exact holds.unwritten key other same
      -- The requested block is there and no longer received.
      · intro key other found all
        have asked : (piece.requestFromPeer offset peerIp now).blocks.lookup offset =
            some (block.requestFromPeer peerIp now) := by
          simp only [Piece.requestFromPeer, lookup_modify_self, present, Option.map_some]
        obtain ⟨bytes, received⟩ := all offset _ asked
        cases received

theorem delivered_settled (piece after : Piece) (offset : Nat) (data : Bytes)
    (holds : Settled sha1 piece) (delivered : Delivered sha1 piece offset data after) :
    Settled sha1 after := by
  have tiled := tiled_same_shape _ _ holds.tiled
    (delivered_same_shape sha1 piece after offset data delivered)
  have unwritten := with_data_unwritten piece offset data holds.unwritten
  cases delivered with
  | unknown => exact holds
  | partly block present lacking =>
      exact ⟨tiled, unwritten, fun key other found all => absurd all lacking⟩
  | verified block present bytes ended same =>
      exact ⟨tiled, unwritten, fun key other found all => ⟨rfl, bytes, ended, same⟩⟩
  | rejected block present bytes ended differs =>
      refine ⟨tiled, ?_, ?_⟩
      · intro key other found
        rw [lookup_map_entries] at found
        obtain ⟨old, -, rfl⟩ := Option.map_eq_some_iff.mp found
        exact BlockState.noConfusion
      · intro key other found all
        obtain ⟨bytes, received⟩ := all key other found
        rw [lookup_map_entries] at found
        obtain ⟨old, -, rfl⟩ := Option.map_eq_some_iff.mp found
        cases received

theorem written_settled (piece : Piece) (holds : Settled sha1 piece) :
    Settled sha1 piece.maskWritten :=
  ⟨⟨holds.tiled.positive, holds.tiled.narrow, holds.tiled.entry, holds.tiled.covers⟩,
    holds.unwritten, fun offset block found all =>
      ⟨rfl, (holds.settled offset block found all).2⟩⟩

theorem step_settled (piece after : Piece) (holds : Settled sha1 piece)
    (step : PieceStep sha1 piece after) : Settled sha1 after := by
  cases step with
  | kept => exact holds
  | requested offset peerIp now => exact request_settled sha1 piece offset peerIp now holds
  | received offset data =>
      apply delivered_settled sha1 piece _ offset data holds
      exact receive_block_outcome sha1 piece holds.tiled holds.unwritten offset data
  | written => exact written_settled sha1 piece holds

theorem fresh_settled (index : UInt32) (length : Nat) (hash : Hash) (blockSize : UInt32)
    (piece : Piece) (fresh : Fresh index length hash blockSize piece) : Settled sha1 piece := by
  refine ⟨fresh.tiled, (fresh_sound sha1 _ _ _ _ piece fresh).1.unwritten, ?_⟩
  intro offset block found all
  obtain ⟨bytes, received⟩ := all offset block found
  rw [fresh.missing offset block found] at received
  cases received

theorem run_settled (torrent : Torrent) (blockSize : UInt32) (start finish : PieceManager)
    (calls : List PieceCall) (log : List Bool)
    (began : PieceManager.new torrent blockSize = some start)
    (ran : run (pieceCalls sha1) start calls = some (finish, log)) (key : UInt32) (piece : Piece)
    (found : finish.pieces.lookup key = some piece) : Settled sha1 piece := by
  refine piece_run sha1 (fun _ => Settled sha1)
    (fun _ piece after holds step => step_settled sha1 piece after holds step)
    start finish calls log ?_ ran key piece found
  intro key piece found
  obtain ⟨i, hash, -, -, -, built⟩ :=
    manager_new_from torrent blockSize start began key piece found
  exact fresh_settled sha1 _ _ _ _ piece (piece_new_fresh _ _ _ _ piece built)

end Settled

section Refinement

variable (sha1 : Bytes → Hash)

theorem received_manager (manager : DownloadManager) (index : UInt32) (begin : Nat)
    (block : Bytes) (piece : Piece)
    (found : manager.pieceManager.pieces.lookup index = some piece) :
    (withBlock sha1 manager index begin block).pieceManager =
      (manager.pieceManager.receiveBlock sha1 index begin block).1 := by
  simp only [PieceManager.receiveBlock, found]
  rfl

theorem piece_calls_one (manager after : PieceManager) (call : PieceCall)
    (performed : (performPiece sha1 manager call).1 = after) :
    Reaches (pieceCalls sha1) manager after := by
  apply reaches_step _ manager manager after call (performPiece sha1 manager call).2
    (reaches_refl _ manager)
  rw [← performed]
  rfl

/-- The download manager changes its pieces by calls on the piece manager alone. -/
theorem step_piece_calls (manager after : DownloadManager) (call : Call) (actions : List Action)
    (step : Step sha1 manager call after actions) :
    Reaches (pieceCalls sha1) manager.pieceManager after.pieceManager := by
  cases step with
  | quiet _ _ _ same =>
      rw [same]
      exact reaches_refl _ _
  | requested _ index piece offset block peerIp now =>
      exact piece_calls_one sha1 _ _ (.requestBlock index offset peerIp now) rfl
  | recieved peerIp index begin block choice _ _ handled =>
      cases handled with
      | unknown => exact reaches_refl _ _
      | kept piece found | failed piece _ found =>
          apply piece_calls_one sha1 _ _ (.receiveBlock index begin.toNat block)
          exact (received_manager sha1 manager index begin.toNat block piece found).symm
      | wrote piece data found ready disk =>
          apply reaches_step _ _ (withBlock sha1 manager index begin.toNat block).pieceManager _
            (.markPieceWritten index) [] _ rfl
          apply piece_calls_one sha1 _ _ (.receiveBlock index begin.toNat block)
          exact (received_manager sha1 manager index begin.toNat block piece found).symm

theorem run_piece_calls (start finish : DownloadManager) (calls : List Call) (log : List Action)
    (ran : run (downloads sha1) start calls = some (finish, log)) :
    Reaches (pieceCalls sha1) start.pieceManager finish.pieceManager := by
  apply run_state_invariant (downloads sha1)
    (fun manager => Reaches (pieceCalls sha1) start.pieceManager manager.pieceManager)
    _ start finish calls log (reaches_refl _ _) ran
  intro manager call next actions reached performed
  apply reaches_trans _ _ _ _ reached
  exact step_piece_calls sha1 manager next call actions
    (machine_step sha1 manager next call actions performed)

end Refinement

section Deliveries

variable (sha1 : Bytes → Hash)

def Invalid (manager : PieceManager) (index : UInt32) (offset : Nat) (data : Bytes) : Prop :=
  ∀ piece block, manager.pieces.lookup index = some piece →
    piece.blocks.lookup offset = some block → data.length ≠ block.length.toNat

def SameStates (before after : Piece) : Prop :=
  after.state = before.state ∧ ∀ offset,
    (after.blocks.lookup offset).map Block.state = (before.blocks.lookup offset).map Block.state

def Unchanged (before after : PieceManager) : Prop :=
  ∀ key, (before.pieces.lookup key = none ∧ after.pieces.lookup key = none) ∨
    ∃ old new, before.pieces.lookup key = some old ∧ after.pieces.lookup key = some new ∧
      SameStates old new

/-- Data that the block refuses or already holds, and the piece is not written with all
its blocks received; or the only block of a piece, with data that fails the hash. -/
structure Absorbed (piece : Piece) (block : Block) (data : Bytes) : Prop where
  refused : UInt32.ofNat data.length ≠ block.length ∨ block.state = .received data
  unwritten : ¬ (piece.state = .written ∧ AllReceived piece)

structure Spoiled (piece : Piece) (offset : Nat) (block : Block) (data : Bytes) : Prop where
  fits : UInt32.ofNat data.length = block.length
  piece_missing : piece.state = .missing
  block_missing : block.state = .missing
  only : ∀ other entry, piece.blocks.lookup other = some entry → other = offset
  differs : sha1 data ≠ piece.hash

def Harmless (manager : PieceManager) (index : UInt32) (offset : Nat) (data : Bytes) : Prop :=
  ∀ piece block, manager.pieces.lookup index = some piece →
    piece.blocks.lookup offset = some block →
      Absorbed piece block data ∨ Spoiled sha1 piece offset block data

theorem with_data_at (piece : Piece) (offset : Nat) (data : Bytes) (block : Block)
    (present : piece.blocks.lookup offset = some block) :
    (withData piece offset data).blocks.lookup offset = some (block.receiveData data) := by
  simp only [withData, lookup_modify_self, present, Option.map_some]

theorem with_data_other (piece : Piece) (offset other : Nat) (data : Bytes)
    (different : other ≠ offset) :
    (withData piece offset data).blocks.lookup other = piece.blocks.lookup other :=
  lookup_modify_ne _ _ _ _ different

theorem receive_data_fits (block : Block) (data : Bytes)
    (fits : UInt32.ofNat data.length = block.length) :
    block.receiveData data = { block with state := .received data } := if_pos fits

theorem with_data_refused (piece : Piece) (offset : Nat) (data : Bytes) (block : Block)
    (present : piece.blocks.lookup offset = some block)
    (refused : UInt32.ofNat data.length ≠ block.length ∨ block.state = .received data) :
    withData piece offset data = piece := by
  have kept : modify piece.blocks offset (fun block => block.receiveData data) =
      piece.blocks := by
    apply modify_self
    intro value found
    obtain rfl := Option.some.inj (present.symm.trans found)
    by_cases fits : UInt32.ofNat data.length = block.length
    · rcases refused with differs | same
      · exact absurd fits differs
      · rw [receive_data_fits block data fits, ← same]
    · exact if_neg fits
  rw [withData, kept]

theorem gather_one (blocks : HashMap Nat Block) (length : Nat) (stride : Block → UInt32)
    (fuel offset : Nat) (buf bytes : Bytes) (block : Block) (enough : 0 < fuel)
    (inside : offset < length) (found : blocks.lookup offset = some block)
    (received : block.state = .received bytes) (past : length ≤ offset + (stride block).toNat) :
    gather blocks length stride fuel offset buf = .data (buf ++ bytes) := by
  obtain ⟨fuel, rfl⟩ := Nat.exists_eq_succ_of_ne_zero (by omega : fuel ≠ 0)
  rw [gather_step blocks length stride fuel offset buf bytes block inside found received,
    gather_end _ _ _ _ _ _ past]

theorem only_block_data (piece : Piece) (tiled : Tiled piece) (offset : Nat) (data : Bytes)
    (block : Block) (present : piece.blocks.lookup offset = some block)
    (fits : UInt32.ofNat data.length = block.length)
    (only : ∀ other entry, piece.blocks.lookup other = some entry → other = offset) :
    (withData piece offset data).hashedData = .data data := by
  have there := with_data_at piece offset data block present
  rw [receive_data_fits block data fits] at there
  have inside := (tiled.entry offset block present).1
  obtain ⟨first, start⟩ := tiled.covers 0 (by omega) (Nat.zero_mod _)
  obtain rfl := only 0 first start
  -- A stride that ends inside the piece would be the start of a second block.
  have short : piece.length ≤ piece.blockSize.toNat := by
    by_contra more
    obtain ⟨second, found⟩ := tiled.covers piece.blockSize.toNat (by omega) (Nat.mod_self _)
    have same := only _ second found
    have positive := tiled.positive inside
    omega
  exact gather_one _ _ _ _ 0 [] data _ inside inside there rfl (by simpa [withData] using short)

theorem refused_same_iff (piece after : Piece) (settled : Settled sha1 piece) (offset : Nat)
    (data : Bytes) (block : Block) (present : piece.blocks.lookup offset = some block)
    (refused : UInt32.ofNat data.length ≠ block.length ∨ block.state = .received data)
    (delivered : Delivered sha1 piece offset data after) :
    SameStates piece after ↔ ¬ (piece.state = .written ∧ AllReceived piece) := by
  have kept := with_data_refused piece offset data block present refused
  cases delivered with
  | unknown absent =>
      rw [present] at absent
      cases absent
  | partly _ _ lacking =>
      rw [kept] at lacking ⊢
      exact iff_of_true ⟨rfl, fun _ => rfl⟩ fun both => lacking both.2
  | verified _ _ bytes ended same =>
      rw [kept] at ended ⊢
      have all := (hashed_data_iff piece settled.tiled).mp ⟨bytes, ended⟩
      have complete := (settled.settled offset block present all).1
      constructor
      · rintro ⟨state, -⟩ ⟨written, -⟩
        rw [written] at state
        cases state
      -- A settled piece with everything received is complete, or written.
      · intro fine
        refine ⟨?_, fun _ => rfl⟩
        cases state : piece.state with
        | complete => rfl
        | written => exact absurd ⟨state, all⟩ fine
        | missing | incomplete => simp [Piece.isComplete, state] at complete
  | rejected _ _ bytes ended differs =>
      rw [kept] at ended
      have all := (hashed_data_iff piece settled.tiled).mp ⟨bytes, ended⟩
      obtain ⟨-, again, same, right⟩ := settled.settled offset block present all
      rw [ended] at same
      cases same
      exact absurd right differs

theorem stored_same_iff (piece after : Piece) (tiled : Tiled piece) (offset : Nat)
    (data : Bytes) (block : Block) (present : piece.blocks.lookup offset = some block)
    (fits : UInt32.ofNat data.length = block.length) (fresh : block.state ≠ .received data)
    (delivered : Delivered sha1 piece offset data after) :
    SameStates piece after ↔ Spoiled sha1 piece offset block data := by
  have there := with_data_at piece offset data block present
  rw [receive_data_fits block data fits] at there
  have hashes := only_block_data piece tiled offset data block present fits
  have shape := tiled_same_shape _ _ tiled (with_data_same_shape piece offset data)
  have differ : ∀ state, ¬ SameStates piece { withData piece offset data with state := state } := by
    rintro state ⟨-, same⟩
    have here := same offset
    simp only [there, present, Option.map_some, Option.some.injEq] at here
    exact fresh here.symm
  cases delivered with
  | unknown absent =>
      rw [present] at absent
      cases absent
  | partly _ _ lacking =>
      apply iff_of_false (differ (withData piece offset data).state)
      intro spoiled
      exact lacking ((hashed_data_iff _ shape).mp ⟨data, hashes spoiled.only⟩)
  | verified _ _ bytes ended same =>
      apply iff_of_false (differ .complete)
      intro spoiled
      rw [hashes spoiled.only] at ended
      cases ended
      exact spoiled.differs same
  | rejected _ _ bytes ended differs =>
      have all := (hashed_data_iff _ shape).mp ⟨bytes, ended⟩
      constructor
      · rintro ⟨state, same⟩
        have only : ∀ other entry, piece.blocks.lookup other = some entry → other = offset := by
          intro other entry found
          by_contra different
          have still := with_data_other piece offset other data different
          obtain ⟨stored, received⟩ := all other entry (still.trans found)
          have here := same other
          simp only [lookup_map_entries, still, found, Option.map_some, Option.some.injEq,
            received] at here
          cases here
        have here := same offset
        simp only [lookup_map_entries, there, present, Option.map_some, Option.some.injEq] at here
        rw [hashes only] at ended
        cases ended
        exact ⟨fits, state.symm, here.symm, only, differs⟩
      · intro spoiled
        refine ⟨spoiled.piece_missing.symm, fun other => ?_⟩
        by_cases here : other = offset
        · subst here
          simp only [lookup_map_entries, there, present, Option.map_some, spoiled.block_missing]
          rfl
        · have absent : piece.blocks.lookup other = none := by
            apply Option.eq_none_iff_forall_ne_some.mpr
            intro entry found
            exact here (spoiled.only other entry found)
          simp only [lookup_map_entries, with_data_other piece offset other data here, absent,
            Option.map_none]

theorem receive_same_iff (piece : Piece) (settled : Settled sha1 piece) (offset : Nat)
    (data : Bytes) (block : Block) (present : piece.blocks.lookup offset = some block) :
    SameStates piece (piece.receiveBlock sha1 offset data).1 ↔
      Absorbed piece block data ∨ Spoiled sha1 piece offset block data := by
  have delivered := receive_block_outcome sha1 piece settled.tiled settled.unwritten offset data
  by_cases refused : UInt32.ofNat data.length ≠ block.length ∨ block.state = .received data
  · rw [refused_same_iff sha1 piece _ settled offset data block present refused delivered]
    constructor
    · intro unwritten
      exact Or.inl ⟨refused, unwritten⟩
    · rintro (absorbed | spoiled)
      · exact absorbed.unwritten
      · rcases refused with differs | same
        · exact absurd spoiled.fits differs
        · rw [spoiled.block_missing] at same
          cases same
  · obtain ⟨fits, fresh⟩ := not_or.mp refused
    rw [stored_same_iff sha1 piece _ settled.tiled offset data block present (not_not.mp fits)
      fresh delivered]
    constructor
    · exact Or.inr
    · rintro (absorbed | spoiled)
      · exact absurd absorbed.refused refused
      · exact spoiled

theorem unchanged_found (manager : PieceManager) (index : UInt32) (offset : Nat) (data : Bytes)
    (piece : Piece) (found : manager.pieces.lookup index = some piece) :
    Unchanged manager (manager.receiveBlock sha1 index offset data).1 ↔
      SameStates piece (piece.receiveBlock sha1 offset data).1 := by
  have changed : (manager.receiveBlock sha1 index offset data).1.pieces.lookup index =
      some (piece.receiveBlock sha1 offset data).1 := by
    rw [receive_block_found sha1 manager index offset data piece found, lookup_modify_self, found,
      Option.map_some]
  constructor
  · intro unchanged
    rcases unchanged index with ⟨absent, -⟩ | ⟨old, new, before, after, same⟩
    · rw [found] at absent
      cases absent
    · obtain rfl := Option.some.inj (found.symm.trans before)
      obtain rfl := Option.some.inj (changed.symm.trans after)
      exact same
  · intro same key
    by_cases here : key = index
    · subst here
      exact Or.inr ⟨piece, _, found, changed, same⟩
    · have other : (manager.receiveBlock sha1 index offset data).1.pieces.lookup key =
          manager.pieces.lookup key := by
        rw [receive_block_found sha1 manager index offset data piece found]
        exact lookup_modify_ne _ _ _ _ here
      cases there : manager.pieces.lookup key with
      | none => exact Or.inl ⟨rfl, other.trans there⟩
      | some entry =>
          exact Or.inr ⟨entry, entry, rfl, other.trans there, rfl, fun _ => rfl⟩

theorem unchanged_refl (manager : PieceManager) : Unchanged manager manager := by
  intro key
  cases found : manager.pieces.lookup key with
  | none => exact Or.inl ⟨rfl, rfl⟩
  | some piece => exact Or.inr ⟨piece, piece, rfl, rfl, rfl, fun _ => rfl⟩

/-- Which invalid deliveries change no state, in every state that calls can reach. -/
theorem invalid_unchanged_iff (torrent : Torrent) (blockSize : UInt32)
    (start manager : PieceManager) (began : PieceManager.new torrent blockSize = some start)
    (reached : Reaches (pieceCalls sha1) start manager) (index : UInt32) (offset : Nat)
    (data : Bytes) (_ : Invalid manager index offset data) :
    Unchanged manager (manager.receiveBlock sha1 index offset data).1 ↔
      Harmless sha1 manager index offset data := by
  obtain ⟨calls, log, ran⟩ := reached
  cases found : manager.pieces.lookup index with
  | none =>
      rw [receive_block_absent sha1 manager index offset data found]
      apply iff_of_true (unchanged_refl manager)
      intro piece block present
      rw [found] at present
      cases present
  | some piece =>
      have settled := run_settled sha1 torrent blockSize start manager calls log began ran index
        piece found
      rw [unchanged_found sha1 manager index offset data piece found]
      cases present : piece.blocks.lookup offset with
      | none =>
          have same : (piece.receiveBlock sha1 offset data).1 = piece := by
            simp only [Piece.receiveBlock, present]
          rw [same]
          apply iff_of_true ⟨rfl, fun _ => rfl⟩
          intro other block there stored
          obtain rfl := Option.some.inj (found.symm.trans there)
          rw [present] at stored
          cases stored
      | some block =>
          rw [receive_same_iff sha1 piece settled offset data block present]
          constructor
          · intro harmless other entry there stored
            obtain rfl := Option.some.inj (found.symm.trans there)
            obtain rfl := Option.some.inj (present.symm.trans stored)
            exact harmless
          · intro harmless
            exact harmless piece block found present

theorem unchanged_state (before after : PieceManager) (unchanged : Unchanged before after)
    (key : UInt32) :
    (after.pieces.lookup key).map Piece.state = (before.pieces.lookup key).map Piece.state := by
  rcases unchanged key with ⟨absent, gone⟩ | ⟨old, new, present, found, same⟩
  · rw [absent, gone]
  · rw [present, found, Option.map_some, Option.map_some, same.1]

def oneMissing : PieceManager := (PieceManager.new oneBlock 4).get (by decide)

def oneWritten : PieceManager :=
  ((oneMissing.receiveBlock zeroHash 0 0 [1, 2, 3, 4]).1).markPieceWritten 0

theorem one_written_reached : Reaches (pieceCalls zeroHash) oneMissing oneWritten :=
  ⟨[.receiveBlock 0 0 [1, 2, 3, 4], .markPieceWritten 0], [true], rfl⟩

def blockLength (manager : PieceManager) (index : UInt32) (offset : Nat) : Option Nat :=
  (manager.pieces.lookup index).bind fun piece =>
    (piece.blocks.lookup offset).map fun block => block.length.toNat

theorem invalid_length (manager : PieceManager) (index : UInt32) (offset length : Nat)
    (data : Bytes) (size : blockLength manager index offset = some length)
    (differs : data.length ≠ length) : Invalid manager index offset data := by
  intro piece block found present
  rw [blockLength, found, Option.bind_some, present, Option.map_some] at size
  rw [Option.some.inj size]
  exact differs

theorem invalid_unchanged_one :
    Unchanged oneMissing (oneMissing.receiveBlock zeroHash 0 0 [7]).1 ↔
      Harmless zeroHash oneMissing 0 0 [7] :=
  invalid_unchanged_iff zeroHash oneBlock 4 oneMissing oneMissing (Option.some_get _).symm
    (reaches_refl _ _) 0 0 [7] (invalid_length oneMissing 0 0 4 [7] (by decide) (by decide))

/-- A block of the wrong length makes a written piece complete again. -/
theorem short_block_rewrites :
    PieceManager.new oneBlock 4 = some oneMissing ∧
      Reaches (pieceCalls zeroHash) oneMissing oneWritten ∧ Invalid oneWritten 0 0 [7] ∧
        ¬ Unchanged oneWritten (oneWritten.receiveBlock zeroHash 0 0 [7]).1 := by
  refine ⟨(Option.some_get _).symm, one_written_reached,
    invalid_length oneWritten 0 0 4 [7] (by decide) (by decide), fun unchanged => ?_⟩
  have state := unchanged_state _ _ unchanged 0
  revert state
  decide

end Deliveries

end MotteSeed.PieceCalls
