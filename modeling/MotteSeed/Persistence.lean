import MotteSeed.Availability

/-! What reaches the disk. Every write carries verified data and every announcement
follows a write. A finished download is on disk as long as no write fails, and a
written piece stays written as long as none of its blocks is delivered again. -/
namespace MotteSeed.Persistence
open Toolkit Toolkit.HashTable Toolkit.Runs PeerWire PeerConnection TorrentMeta PieceStore
  PieceShape PieceInvariant Downloads DownloadSafety

section Writes

variable (sha1 : Bytes → Hash)

theorem step_wrote (manager after : DownloadManager) (call : Call) (actions : List Action)
    (step : Step sha1 manager call after actions) (index : UInt32) (data : Bytes) (ok : Bool)
    (wrote : .wrotePiece index data ok ∈ actions) :
    ∃ begin block peerIp choice piece,
      call = .event (.receivedPiece index begin block) peerIp choice ∧
        manager.pieceManager.pieces.lookup index = some piece ∧
        (piece.receiveBlock sha1 begin.toNat block).1.getPieceData = some data := by
  cases step with
  | quiet _ _ _ _ _ silent =>
      obtain ⟨sender, delivered, same⟩ := silent _ wrote
      cases same
  | requested _ _ _ _ _ _ _ _ _ _ _ _ asked =>
      obtain ⟨sender, delivered, same⟩ := asked _ wrote
      cases same
  | recieved peerIp index begin block choice _ _ handled =>
      cases handled with
      | unknown | kept => cases wrote
      | failed piece data found ready =>
          cases List.mem_singleton.mp wrote
          exact ⟨begin, block, peerIp, choice, piece, rfl, found, ready⟩
      | wrote piece data found ready disk =>
          rcases List.mem_cons.mp wrote with same | announced
          · cases same
            exact ⟨begin, block, peerIp, choice, piece, rfl, found, ready⟩
          · obtain ⟨peer, -, same⟩ := List.mem_map.mp announced
            cases same

/-- Every announcement of a piece follows a successful write of that piece. -/
def HavesFollowWrites (actions : List Action) : Prop :=
  ∀ before sender index delivered later,
    actions = before ++ .sent sender (.havePiece index) delivered :: later →
      ∃ data, .wrotePiece index data true ∈ before

theorem step_haves (manager after : DownloadManager) (call : Call) (actions : List Action)
    (step : Step sha1 manager call after actions) : HavesFollowWrites actions := by
  intro before sender target delivered later split
  have member : .sent sender (.havePiece target) delivered ∈ actions := by simp [split]
  cases step with
  | quiet _ _ _ _ _ silent =>
      obtain ⟨other, arrived, same⟩ := silent _ member
      cases same
  | requested _ _ _ _ _ _ _ _ _ _ _ _ asked =>
      obtain ⟨other, arrived, same⟩ := asked _ member
      cases same
  | recieved peerIp index begin block choice _ _ handled =>
      cases handled with
      | unknown | kept => cases member
      | failed => cases List.mem_singleton.mp member
      | wrote piece data found ready disk =>
          -- The write is the first action, so it stands before every announcement.
          cases before with
          | nil => cases split
          | cons first rest =>
              obtain ⟨rfl, tail⟩ := List.cons.inj split
              have announced : Action.sent sender (.havePiece target) delivered ∈
                  broadcastHave choice (withBlock sha1 manager index begin.toNat block) index := by
                rw [tail]
                exact List.mem_append_right rest List.mem_cons_self
              obtain ⟨peer, -, same⟩ := List.mem_map.mp announced
              cases same
              exact ⟨data, List.mem_cons_self⟩

theorem hash_bytes (torrent : Torrent) (blockSize : UInt32) (start : DownloadManager)
    (narrow : hashCount torrent.info ≤ 2 ^ 32)
    (began : DownloadManager.new torrent blockSize = some start) (index : UInt32) (piece : Piece)
    (found : start.pieceManager.pieces.lookup index = some piece) :
    piece.hash.toList = ByteImage.slice torrent.info.rawPieces (index.toNat * 20) 20 := by
  obtain ⟨hash, known, built⟩ := manager_new_lookup torrent blockSize _ narrow
    (new_piece_manager torrent blockSize start began) index piece found
  rw [(piece_new_fresh _ _ _ _ piece built).hash]
  exact ((piece_hash_some_iff torrent.info index.toNat hash).mp known).2

/-- In every run, every write carries verified data of the piece's length, and every
announcement follows a successful write in the same event. -/
theorem writes_verified (torrent : Torrent) (blockSize : UInt32) (start reached : DownloadManager)
    (calls : List Call) (call : Call) (log : List Action)
    (narrow : hashCount torrent.info < 2 ^ 32)
    (began : DownloadManager.new torrent blockSize = some start)
    (short : ∀ other ∈ calls ++ [call], ShortBlock other)
    (ran : run (downloads sha1) start calls = some (reached, log)) :
    (∀ index data ok, .wrotePiece index data ok ∈ (perform sha1 reached call).2 →
      (∃ piece, start.pieceManager.pieces.lookup index = some piece ∧
        data.length = piece.length) ∧
      (sha1 data).toList = ByteImage.slice torrent.info.rawPieces (index.toNat * 20) 20) ∧
    HavesFollowWrites (perform sha1 reached call).2 := by
  have step := perform_step sha1 reached call
  refine ⟨?_, step_haves sha1 _ _ _ _ step⟩
  intro index data ok wrote
  obtain ⟨begin, block, peerIp, choice, piece, rfl, found, ready⟩ :=
    step_wrote sha1 _ _ _ _ step index data ok wrote
  have descends := run_descends sha1 torrent blockSize start reached calls log began ran index
    piece found
  have exact := run_exact sha1 torrent blockSize start reached calls log began
    (fun other member => short other (List.mem_append_left _ member)) ran index piece found
  have fits : block.length < 2 ^ 32 :=
    short _ (List.mem_append_right calls List.mem_cons_self)
  have next := descends_deliver sha1 start.pieceManager index piece begin.toNat block descends
  have next_exact := delivered_exact sha1 piece _ begin.toNat block exact fits
    (receive_block_delivered sha1 piece descends.sound begin.toNat block)
  obtain ⟨-, same, size⟩ := piece_data_verified sha1 _ next.sound data ready
  obtain ⟨origin, first, shape⟩ := next.origin
  refine ⟨⟨origin, first, ?_⟩, ?_⟩
  · rw [size next_exact, shape.length]
  · rw [same, shape.hash]
    exact hash_bytes torrent blockSize start (Nat.le_of_lt narrow) began index origin first

theorem new_starts (torrent : Torrent) (blockSize : UInt32) (positive : 0 < blockSize.toNat)
    (narrow : torrent.info.pieceLength < 2 ^ 32) :
    ∃ start, DownloadManager.new torrent blockSize = some start := by
  obtain ⟨manager, made⟩ := manager_new_ends torrent blockSize positive narrow
  exact ⟨_, by rw [DownloadManager.new, made]; rfl⟩

def deliver (choice : Choice) (begin : UInt32) (block : Bytes) : Call :=
  .event (.receivedPiece 0 begin block) (Vector.replicate 6 0) choice

theorem writes_verified_one : ∃ start, DownloadManager.new oneBlock 4 = some start ∧
    (∀ index data ok, .wrotePiece index data ok ∈
        (perform zeroHash (setDiskIo start) (deliver default 0 [1, 2, 3, 4])).2 →
      (∃ piece, start.pieceManager.pieces.lookup index = some piece ∧
        data.length = piece.length) ∧
      (zeroHash data).toList =
        ByteImage.slice oneBlock.info.rawPieces (index.toNat * 20) 20) ∧
    HavesFollowWrites (perform zeroHash (setDiskIo start) (deliver default 0 [1, 2, 3, 4])).2 := by
  obtain ⟨start, began⟩ := new_starts oneBlock 4 (by decide) (by decide)
  exact ⟨start, began, writes_verified zeroHash oneBlock 4 start (setDiskIo start) [.setDiskIo]
    (deliver default 0 [1, 2, 3, 4]) [] (by decide) began (by simp [ShortBlock, deliver]) rfl⟩

end Writes

section Completion

variable (sha1 : Bytes → Hash)

theorem run_loop_run (manager finish : DownloadManager) (received : List Received)
    (log : List Action) (returned : Bool)
    (ran : runLoop sha1 manager received = (finish, log, returned)) :
    (∃ calls, run (downloads sha1) manager calls = some (finish, log)) ∧
      (returned = true → finish.pieceManager.isDownloadComplete = true) := by
  induction received generalizing manager finish log returned with
  | nil =>
      obtain ⟨rfl, rfl, rfl⟩ := by simpa [runLoop] using ran
      exact ⟨⟨[], rfl⟩, fun absurd => by cases absurd⟩
  | cons taken rest ih =>
      have first : ∃ calls, run (downloads sha1) manager calls =
          some (handleReceived sha1 manager taken) := by
        cases taken with
        | none => exact ⟨[], rfl⟩
        | some event =>
            obtain ⟨event, peerIp, choice⟩ := event
            exact ⟨[.event event peerIp choice], (run_cons_iff _ _ _ _ _ _).mpr
              ⟨_, _, [], rfl, rfl, (List.append_nil _).symm⟩⟩
      simp only [runLoop] at ran
      -- The test for completion comes after every event, so the run stops at the first success.
      by_cases complete :
          (handleReceived sha1 manager taken).1.pieceManager.isDownloadComplete = true
      · rw [if_pos complete] at ran
        obtain ⟨rfl, rfl, rfl⟩ := by simpa using ran
        exact ⟨first, fun _ => complete⟩
      · rw [if_neg complete] at ran
        obtain ⟨rfl, rfl, rfl⟩ := by simpa using ran
        obtain ⟨⟨later, tail⟩, ended⟩ := ih _ _ _ _ rfl
        obtain ⟨calls, head⟩ := first
        exact ⟨⟨calls ++ later, (run_append_iff _ _ _ _ _ _).mpr ⟨_, _, _, head, tail, rfl⟩⟩,
          ended⟩

def Stored (log : List Action) (key : UInt32) (piece : Piece) : Prop :=
  ∃ data, .wrotePiece key data true ∈ log ∧ sha1 data = piece.hash

theorem delivered_complete (piece after : Piece) (offset : Nat) (data : Bytes)
    (delivered : Delivered sha1 piece offset data after) (complete : after.isComplete = true) :
    piece.isComplete = true ∨ after.state = .complete := by
  cases delivered with
  | unknown | partly => exact Or.inl complete
  | verified => exact Or.inr rfl
  | rejected => cases complete

structure Persisted (start : PieceManager) (manager : DownloadManager) (log : List Action) :
    Prop where
  disk : manager.diskIo = true
  descends : ∀ key piece, manager.pieceManager.pieces.lookup key = some piece →
    Descends sha1 start key piece
  stored : ∀ key piece, manager.pieceManager.pieces.lookup key = some piece →
    piece.isComplete = true → Stored sha1 log key piece

theorem stored_later (log more : List Action) (key : UInt32) (before after : Piece)
    (stored : Stored sha1 log key before) (same : after.hash = before.hash) :
    Stored sha1 (log ++ more) key after := by
  obtain ⟨data, wrote, hashed⟩ := stored
  exact ⟨data, List.mem_append_left more wrote, hashed.trans same.symm⟩

theorem persisted_step (start : PieceManager) (manager after : DownloadManager)
    (log actions : List Action) (call : Call)
    (step : Step sha1 manager call after actions)
    (fine : ∀ index data, .wrotePiece index data false ∉ actions)
    (holds : Persisted sha1 start manager log) : Persisted sha1 start after (log ++ actions) := by
  have descends := step_descends sha1 start manager after call actions step holds.descends
  cases step with
  | quiet _ _ _ same disk =>
      refine ⟨disk holds.disk, descends, fun key piece found complete => ?_⟩
      rw [same] at found
      exact stored_later sha1 log actions key piece piece
        (holds.stored key piece found complete) rfl
  | requested _ index old offset block peerIp now _ present needed =>
      refine ⟨holds.disk, descends, fun key piece found complete => ?_⟩
      rcases lookup_modify_some _ _ _ _ _ found with ⟨rfl, other, there, rfl⟩ | ⟨-, same⟩
      · obtain rfl := Option.some.inj (present.symm.trans there)
        have unchanged : (old.requestFromPeer offset peerIp now).isComplete = old.isComplete := rfl
        rw [unchanged, needed] at complete
        cases complete
      · exact stored_later sha1 log actions key piece piece (holds.stored key piece same complete)
          rfl
  | recieved peerIp index begin block choice _ _ handled =>
      cases handled with
      | unknown =>
          exact ⟨holds.disk, descends, fun key piece found complete =>
            stored_later sha1 log [] key piece piece (holds.stored key piece found complete) rfl⟩
      | failed piece data => exact absurd List.mem_cons_self (fine index data)
      | kept piece found silent =>
          have before := holds.descends index piece found
          have next := descends_deliver sha1 start index piece begin.toNat block before
          have delivered := receive_block_delivered sha1 piece before.sound begin.toNat block
          refine ⟨holds.disk, descends, fun key other there complete => ?_⟩
          rcases lookup_modify_some _ _ _ _ _ there with ⟨rfl, old, present, rfl⟩ | ⟨-, same⟩
          · obtain rfl := Option.some.inj (found.symm.trans present)
            rcases delivered_complete sha1 piece _ _ _ delivered complete with already | now
            · exact stored_later sha1 log [] key piece _ (holds.stored key piece found already)
                (delivered_same_shape sha1 piece _ _ _ delivered).hash
            · -- A piece that is complete and not yet written has data to write.
              obtain ⟨data, ready⟩ := complete_has_data sha1 _ next.sound now
              rcases silent with off | nothing
              · rw [holds.disk] at off
                cases off
              · rw [ready] at nothing
                cases nothing
          · exact stored_later sha1 log [] key other other (holds.stored key other same complete)
              rfl
      | wrote piece data found ready disk =>
          have before := holds.descends index piece found
          have next := descends_deliver sha1 start index piece begin.toNat block before
          refine ⟨holds.disk, descends, fun key other there complete => ?_⟩
          rcases lookup_modify_some _ _ _ _ _ there with ⟨rfl, held, present, rfl⟩ | ⟨apart, same⟩
          · simp only [withBlock, withPiece, lookup_modify_self, found, Option.map_some,
              Option.some.injEq] at present
            subst present
            exact ⟨data, List.mem_append_right log List.mem_cons_self,
              (piece_data_verified sha1 _ next.sound data ready).2.1⟩
          · rw [withBlock, withPiece, lookup_modify_ne _ _ _ _ apart] at same
            exact stored_later sha1 log _ key other other (holds.stored key other same complete) rfl

theorem run_persisted (start manager finish : DownloadManager) (calls : List Call)
    (before log : List Action) (holds : Persisted sha1 start.pieceManager manager before)
    (fine : ∀ index data, .wrotePiece index data false ∉ log)
    (ran : run (downloads sha1) manager calls = some (finish, log)) :
    Persisted sha1 start.pieceManager finish (before ++ log) := by
  suffices general : (∀ index data, .wrotePiece index data false ∉ log) →
      Persisted sha1 start.pieceManager finish (before ++ log) from general fine
  refine run_invariant (downloads sha1) (fun manager log =>
    (∀ index data, .wrotePiece index data false ∉ log) →
      Persisted sha1 start.pieceManager manager (before ++ log)) ?_ manager finish calls log
    (fun _ => by simpa using holds) ran
  intro state log call next actions kept performed quiet
  have earlier := kept fun index data member => quiet index data (List.mem_append_left _ member)
  rw [← List.append_assoc]
  exact persisted_step sha1 start.pieceManager state next _ actions call
    (machine_step sha1 state next call actions performed)
    (fun index data member => quiet index data (List.mem_append_right _ member)) earlier

def Setup : Call → Prop
  | .addPeer _ _ | .removePeer _ | .setDiskIo => True
  | .event _ _ _ => False

theorem setup_pieces (start ready : DownloadManager) (setup : List Call) (log : List Action)
    (prepares : ∀ call ∈ setup, Setup call)
    (ran : run (downloads sha1) start setup = some (ready, log)) :
    ready.pieceManager = start.pieceManager ∧ log = [] := by
  refine run_performed sha1 start setup (fun _ manager log =>
    manager.pieceManager = start.pieceManager ∧ log = []) ⟨rfl, rfl⟩ ?_ setup
    (List.prefix_refl setup) ready log ran
  rintro past call manager log began - ⟨same, rfl⟩
  have prepare := prepares call (began.subset (List.mem_append_right past List.mem_cons_self))
  cases call with
  | addPeer | removePeer | setDiskIo => exact ⟨same, rfl⟩
  | event => cases prepare

/-- In a run of the loop whose writes all succeed, the manager returns only once the
data of every piece has been written. -/
theorem complete_run_persisted (torrent : Torrent) (blockSize : UInt32)
    (start ready finish : DownloadManager) (setup : List Call) (opening : List Action)
    (received : List Received) (log : List Action)
    (began : DownloadManager.new torrent blockSize = some start)
    (prepares : ∀ call ∈ setup, Setup call)
    (prepared : run (downloads sha1) start setup = some (ready, opening))
    (disk : ready.diskIo = true)
    (returned : runLoop sha1 ready received = (finish, log, true))
    (narrow : hashCount torrent.info ≤ 2 ^ 32)
    (fine : ∀ index data, .wrotePiece index data false ∉ log) :
    ∀ i, i < hashCount torrent.info → ∃ data, .wrotePiece (UInt32.ofNat i) data true ∈ log ∧
      (sha1 data).toList = ByteImage.slice torrent.info.rawPieces (i * 20) 20 := by
  obtain ⟨⟨calls, ran⟩, complete⟩ := run_loop_run sha1 ready finish received log true returned
  obtain ⟨same, -⟩ := setup_pieces sha1 start ready setup opening prepares prepared
  have initial : Persisted sha1 start.pieceManager ready [] := by
    refine ⟨disk, run_descends sha1 torrent blockSize start ready setup opening began prepared, ?_⟩
    intro key piece found flag
    rw [same] at found
    obtain ⟨i, hash, -, fresh⟩ := new_pieces_fresh torrent blockSize start began key piece found
    simp [Piece.isComplete, fresh.state] at flag
  have final := run_persisted sha1 start ready finish calls [] log initial fine ran
  intro i less
  obtain ⟨origin, first⟩ := manager_new_has torrent blockSize _
    (new_piece_manager torrent blockSize start began) i less
  have there : (finish.pieceManager.pieces.lookup (UInt32.ofNat i)).isSome = true := by
    rw [run_keys sha1 ready finish calls log ran, same, first]
    rfl
  obtain ⟨piece, found⟩ := Option.isSome_iff_exists.mp there
  obtain ⟨data, wrote, hashed⟩ := final.stored _ piece found
    ((all_values_iff _ _).mp (complete rfl) _ piece found)
  obtain ⟨ancestor, also, shape⟩ := (final.descends _ piece found).origin
  have bytes := hash_bytes torrent blockSize start narrow began _ ancestor also
  rw [word_index i _ less narrow] at bytes
  exact ⟨data, wrote, by rw [hashed, shape.hash, bytes]⟩

def oneBlockReady : DownloadManager := setDiskIo Availability.oneBlockManager

def arrival (written : Bool) : Received :=
  some (.receivedPiece 0 0 [1, 2, 3, 4], Vector.replicate 6 0,
    { (default : Choice) with written := written })

theorem complete_run_persisted_one :
    ∃ data, .wrotePiece (UInt32.ofNat 0) data true ∈
        (runLoop zeroHash oneBlockReady [arrival true]).2.1 ∧
      (zeroHash data).toList = ByteImage.slice oneBlock.info.rawPieces (0 * 20) 20 := by
  have log : (runLoop zeroHash oneBlockReady [arrival true]).2.1 =
      [.wrotePiece 0 [1, 2, 3, 4] true] := by decide
  exact complete_run_persisted zeroHash oneBlock 4 Availability.oneBlockManager oneBlockReady
    (runLoop zeroHash oneBlockReady [arrival true]).1 [.setDiskIo] [] [arrival true]
    (runLoop zeroHash oneBlockReady [arrival true]).2.1 (Option.some_get _).symm (by simp [Setup])
    rfl rfl rfl (by decide) (by simp [log]) 0 (by decide)

/-- The only write fails, and the loop returns all the same. -/
theorem failed_write_returns :
    (runLoop zeroHash oneBlockReady [arrival false]).2.2 = true ∧
      ¬ ∀ i, i < hashCount oneBlock.info → ∃ data, .wrotePiece (UInt32.ofNat i) data true ∈
          (runLoop zeroHash oneBlockReady [arrival false]).2.1 ∧
        (zeroHash data).toList = ByteImage.slice oneBlock.info.rawPieces (i * 20) 20 := by
  have log : (runLoop zeroHash oneBlockReady [arrival false]).2.1 =
      [.wrotePiece 0 [1, 2, 3, 4] false] := by decide
  refine ⟨by decide, fun persisted => ?_⟩
  obtain ⟨data, wrote, -⟩ := persisted 0 (by decide)
  rw [log] at wrote
  simp at wrote

end Completion

section Written

variable (sha1 : Bytes → Hash)

def Delivers (index : UInt32) (piece : Piece) (call : Call) : Prop :=
  ∃ begin block peerIp choice slot,
    call = .event (.receivedPiece index begin block) peerIp choice ∧
      piece.blocks.lookup begin.toNat = some slot

def Mentions (index : UInt32) (action : Action) : Prop :=
  (∃ data ok, action = .wrotePiece index data ok) ∨
    ∃ sender delivered, action = .sent sender (.havePiece index) delivered

def WrittenPiece (manager : DownloadManager) (index : UInt32) (like : Piece) : Prop :=
  ∃ piece, manager.pieceManager.pieces.lookup index = some piece ∧ piece.state = .written ∧
    SameShape like piece

/-- In every state that the calls lead to, the piece is still written, and it has
been neither written nor announced again. -/
def StaysWritten (manager : DownloadManager) (index : UInt32) (calls : List Call) : Prop :=
  ∀ past finish log, past <+: calls → run (downloads sha1) manager past = some (finish, log) →
    (∃ piece, finish.pieceManager.pieces.lookup index = some piece ∧ piece.state = .written) ∧
      ∀ action ∈ log, ¬ Mentions index action

theorem step_mentions (manager after : DownloadManager) (call : Call) (actions : List Action)
    (step : Step sha1 manager call after actions) (index : UInt32) (action : Action)
    (member : action ∈ actions) (mentions : Mentions index action) :
    ∃ data ok, .wrotePiece index data ok ∈ actions := by
  rcases mentions with ⟨data, ok, rfl⟩ | ⟨sender, delivered, rfl⟩
  · exact ⟨data, ok, member⟩
  · obtain ⟨before, later, split⟩ := List.append_of_mem member
    obtain ⟨data, wrote⟩ := step_haves sha1 _ _ _ _ step before sender index delivered later split
    exact ⟨data, true, by rw [split]; exact List.mem_append_left _ wrote⟩

theorem step_written (manager after : DownloadManager) (call : Call) (actions : List Action)
    (step : Step sha1 manager call after actions) (index : UInt32) (like : Piece)
    (written : WrittenPiece manager index like) (apart : ¬ Delivers index like call) :
    WrittenPiece after index like ∧ ∀ action ∈ actions, ¬ Mentions index action := by
  obtain ⟨piece, found, state, same⟩ := written
  have untouched : ∀ begin block peerIp choice,
      call = .event (.receivedPiece index begin block) peerIp choice →
        piece.receiveBlock sha1 begin.toNat block = (piece, false) := by
    rintro begin block peerIp choice rfl
    cases slot : piece.blocks.lookup begin.toNat with
    | none => rw [Piece.receiveBlock, slot]
    | some held =>
        obtain ⟨old, there, -⟩ := same_shape_block like piece same begin.toNat held slot
        exact absurd ⟨begin, block, peerIp, choice, old, rfl, there⟩ apart
  have silent : piece.getPieceData = none := by simp [Piece.getPieceData, state]
  constructor
  · cases step with
    | quiet _ _ _ kept => exact ⟨piece, by rw [kept, found], state, same⟩
    -- A written piece counts as complete and is not picked for a request.
    | requested _ other old offset block peerIp now _ present needed =>
        by_cases here : index = other
        · subst here
          obtain rfl := Option.some.inj (present.symm.trans found)
          simp [Piece.isComplete, state] at needed
        · exact ⟨piece, by rw [withPiece, lookup_modify_ne _ _ _ _ here, found], state, same⟩
    | recieved peerIp other begin block choice _ _ handled =>
        have stored : (withBlock sha1 manager other begin.toNat block).pieceManager.pieces.lookup
            index = some piece := by
          by_cases here : index = other
          · subst here
            rw [withBlock, withPiece, lookup_modify_self, found, Option.map_some,
              untouched begin block peerIp choice rfl]
          · rw [withBlock, withPiece, lookup_modify_ne _ _ _ _ here, found]
        cases handled with
        | unknown => exact ⟨piece, found, state, same⟩
        | kept | failed => exact ⟨piece, stored, state, same⟩
        | wrote old data present ready disk =>
            by_cases here : index = other
            · subst here
              obtain rfl := Option.some.inj (present.symm.trans found)
              rw [untouched begin block peerIp choice rfl, silent] at ready
              cases ready
            · exact ⟨piece, by rw [withPiece, lookup_modify_ne _ _ _ _ here, stored], state, same⟩
  · intro action member mentions
    obtain ⟨data, ok, wrote⟩ := step_mentions sha1 _ _ _ _ step index action member mentions
    obtain ⟨begin, block, peerIp, choice, old, rfl, present, ready⟩ :=
      step_wrote sha1 _ _ _ _ step index data ok wrote
    obtain rfl := Option.some.inj (present.symm.trans found)
    rw [untouched begin block peerIp choice rfl, silent] at ready
    cases ready

/-- A delivery for a block of a written piece verifies the piece again, and then
either writes it again or throws it away. -/
theorem delivered_disturbs (manager : DownloadManager) (index begin : UInt32) (block : Bytes)
    (peerIp : PeerIp) (choice : Choice) (piece : Piece) (slot : Block)
    (found : manager.pieceManager.pieces.lookup index = some piece)
    (there : piece.blocks.lookup begin.toNat = some slot) (state : piece.state = .written)
    (sound : Sound sha1 piece) (disk : manager.diskIo = true) :
    (∃ data ok, .wrotePiece index data ok ∈ (perform sha1 manager
        (.event (.receivedPiece index begin block) peerIp choice)).2) ∨
      ∃ after, (perform sha1 manager (.event (.receivedPiece index begin block) peerIp
        choice)).1.pieceManager.pieces.lookup index = some after ∧ after.state = .missing := by
  have complete : piece.isComplete = true := by simp [Piece.isComplete, state]
  have all := complete_all_received sha1 piece sound complete
  have delivered := receive_block_delivered sha1 piece sound begin.toNat block
  have next := delivered_sound sha1 piece _ begin.toNat block sound delivered
  have handled := handle_recieve_found sha1 choice manager index begin.toNat block piece found
  change (∃ data ok, _ ∈ (handleRecievePiece sha1 choice manager index begin.toNat block).2) ∨
    ∃ after, (handleRecievePiece sha1 choice manager index begin.toNat
      block).1.pieceManager.pieces.lookup index = some after ∧ _
  rw [handled]
  generalize result : (piece.receiveBlock sha1 begin.toNat block).1 = outcome at delivered next
  cases delivered with
  | unknown absent =>
      rw [there] at absent
      cases absent
  -- The piece had every block, so it is verified again at once.
  | partly _ _ lacking =>
      exact absurd (with_data_all_received piece begin.toNat block all) lacking
  | verified _ _ bytes ended same =>
      obtain ⟨data, ready⟩ := complete_has_data sha1 _ next rfl
      left
      rw [if_pos ⟨rfl, disk⟩, ready]
      cases choice.written with
      | true => exact ⟨data, true, List.mem_cons_self⟩
      | false => exact ⟨data, false, List.mem_cons_self⟩
  | rejected _ _ bytes ended differs =>
      right
      rw [if_neg fun both => Bool.false_ne_true both.1]
      have stored : (withBlock sha1 manager index begin.toNat block).pieceManager.pieces.lookup
          index = some (piece.receiveBlock sha1 begin.toNat block).1 := by
        rw [withBlock, withPiece, lookup_modify_self, found, Option.map_some]
      exact ⟨_, stored, by rw [result]⟩

theorem step_disk (manager after : DownloadManager) (call : Call) (actions : List Action)
    (step : Step sha1 manager call after actions)
    (sound : ∀ key piece, manager.pieceManager.pieces.lookup key = some piece →
      Sound sha1 piece)
    (before : ∀ key piece, manager.pieceManager.pieces.lookup key = some piece →
      piece.state = .written → manager.diskIo = true)
    (key : UInt32) (piece : Piece) (found : after.pieceManager.pieces.lookup key = some piece)
    (state : piece.state = .written) : after.diskIo = true := by
  cases step with
  | quiet _ _ _ same disk =>
      rw [same] at found
      exact disk (before key piece found state)
  | requested _ index old offset block peerIp now _ present needed =>
      rcases lookup_modify_some _ _ _ _ _ found with ⟨rfl, other, there, rfl⟩ | ⟨-, same⟩
      · exact before key other there state
      · exact before key piece same state
  | recieved peerIp index begin block choice _ _ handled =>
      cases handled with
      | unknown => exact before key piece found state
      | wrote _ _ _ _ disk => exact disk
      | kept | failed =>
          rcases lookup_modify_some _ _ _ _ _ found with ⟨rfl, old, present, rfl⟩ | ⟨-, same⟩
          · have delivered :=
              receive_block_delivered sha1 old (sound key old present) begin.toNat block
            generalize (old.receiveBlock sha1 begin.toNat block).1 = next at delivered state
            cases delivered with
            -- A verified piece is only complete and a rejected one missing, never written.
            | unknown | partly => exact before key old present state
            | verified | rejected => cases state
          · exact before key piece same state

theorem run_disk (torrent : Torrent) (blockSize : UInt32) (start finish : DownloadManager)
    (calls : List Call) (log : List Action)
    (began : DownloadManager.new torrent blockSize = some start)
    (ran : run (downloads sha1) start calls = some (finish, log)) (key : UInt32) (piece : Piece)
    (found : finish.pieceManager.pieces.lookup key = some piece)
    (state : piece.state = .written) : finish.diskIo = true := by
  refine run_performed sha1 start calls (fun _ manager _ =>
    ∀ key piece, manager.pieceManager.pieces.lookup key = some piece →
      piece.state = .written → manager.diskIo = true) ?_ ?_ calls (List.prefix_refl calls)
    finish log ran key piece found state
  · intro key piece found state
    obtain ⟨i, hash, -, fresh⟩ := new_pieces_fresh torrent blockSize start began key piece found
    rw [fresh.state] at state
    cases state
  · intro past call manager log _ reached before
    refine step_disk sha1 manager _ call _ (perform_step sha1 manager call) ?_ before
    exact run_sound sha1 torrent blockSize start manager past log began reached

theorem run_written (start : DownloadManager) (index : UInt32) (like : Piece)
    (calls : List Call) (written : WrittenPiece start index like)
    (apart : ∀ call ∈ calls, ¬ Delivers index like call) (past : List Call)
    (began : past <+: calls) (finish : DownloadManager) (log : List Action)
    (ran : run (downloads sha1) start past = some (finish, log)) :
    WrittenPiece finish index like ∧ ∀ action ∈ log, ¬ Mentions index action := by
  refine run_performed sha1 start calls (fun _ manager log =>
    WrittenPiece manager index like ∧ ∀ action ∈ log, ¬ Mentions index action)
    ⟨written, by simp⟩ ?_ past began finish log ran
  rintro past call manager log inside - ⟨here, silent⟩
  have away := apart call (inside.subset (List.mem_append_right past List.mem_cons_self))
  obtain ⟨there, quiet⟩ := step_written sha1 manager _ call _ (perform_step sha1 manager call)
    index like here away
  refine ⟨there, fun action member => ?_⟩
  rcases List.mem_append.mp member with earlier | now
  · exact silent action earlier
  · exact quiet action now

/-- A written piece of a reachable manager stays written, with no further write or
announcement, exactly when nothing is delivered for one of its blocks. -/
theorem stays_written_iff (torrent : Torrent) (blockSize : UInt32)
    (start reached : DownloadManager) (calls : List Call) (log : List Action) (index : UInt32)
    (piece : Piece) (began : DownloadManager.new torrent blockSize = some start)
    (ran : run (downloads sha1) start calls = some (reached, log))
    (found : reached.pieceManager.pieces.lookup index = some piece)
    (written : piece.state = .written) (later : List Call) :
    StaysWritten sha1 reached index later ↔ ∀ call ∈ later, ¬ Delivers index piece call := by
  have here : WrittenPiece reached index piece := ⟨piece, found, written, same_shape_refl piece⟩
  constructor
  · rintro stays call member ⟨begin, block, peerIp, choice, slot, rfl, there⟩
    obtain ⟨past, rest, rfl⟩ := List.append_of_mem member
    obtain ⟨middle, before, reaches⟩ := run_total sha1 reached past
    obtain ⟨⟨held, inside, state⟩, -⟩ :=
      stays past middle before (List.prefix_append past _) reaches
    have whole := (run_append_iff (downloads sha1) start middle calls past _).mpr
      ⟨reached, log, before, ran, reaches, rfl⟩
    have descends := run_descends sha1 torrent blockSize start middle _ _ began whole index held
      inside
    have disk := run_disk sha1 torrent blockSize start middle _ _ began whole index held inside
      state
    have first := run_descends sha1 torrent blockSize start reached _ _ began ran index piece found
    -- The blocks of the piece are the same in both states, as both descend from one piece.
    obtain ⟨origin, known, same⟩ := descends.origin
    obtain ⟨again, also, shape⟩ := first.origin
    obtain rfl := Option.some.inj (known.symm.trans also)
    obtain ⟨slot, there, -⟩ := same_shape_block held piece
      (same_shape_trans _ _ _ (same_shape_symm _ _ same) shape) begin.toNat slot there
    have one_more := run_further sha1 reached middle past before
      (.event (.receivedPiece index begin block) peerIp choice) reaches
    obtain ⟨⟨after, present, still⟩, quiet⟩ := stays _ _ _ (by simp) one_more
    rcases delivered_disturbs sha1 middle index begin block peerIp choice held slot inside there
        state descends.sound disk with ⟨data, ok, wrote⟩ | ⟨lost, missing, reset⟩
    · exact quiet _ (List.mem_append_right before wrote) (Or.inl ⟨data, ok, rfl⟩)
    · obtain rfl := Option.some.inj (present.symm.trans missing)
      rw [reset] at still
      cases still
  · intro apart past finish log inside reaches
    obtain ⟨⟨held, there, state, -⟩, quiet⟩ :=
      run_written sha1 reached index piece later here apart past inside finish log reaches
    exact ⟨⟨held, there, state⟩, quiet⟩

def oneBlockWritten : DownloadManager :=
  (perform zeroHash oneBlockReady (deliver default 0 [1, 2, 3, 4])).1

def oneBlockPiece : Piece := (oneBlockWritten.pieceManager.pieces.lookup 0).get (by decide)

theorem stays_written_one :
    StaysWritten zeroHash oneBlockWritten 0 [deliver default 1 [9]] ↔
      ∀ call ∈ [deliver default 1 [9]], ¬ Delivers 0 oneBlockPiece call :=
  stays_written_iff zeroHash oneBlock 4 Availability.oneBlockManager
    oneBlockWritten [.setDiskIo, deliver default 0 [1, 2, 3, 4]]
    [.wrotePiece 0 [1, 2, 3, 4] true] 0 oneBlockPiece (Option.some_get _).symm rfl
    (Option.some_get _).symm (by decide) [deliver default 1 [9]]

/-- The same block arrives a second time and the piece is written again. -/
theorem late_block_rewrites :
    (∃ piece, oneBlockWritten.pieceManager.pieces.lookup 0 = some piece ∧
        piece.state = .written) ∧
      ¬ StaysWritten zeroHash oneBlockWritten 0 [deliver default 0 [1, 2, 3, 4]] := by
  refine ⟨⟨oneBlockPiece, (Option.some_get _).symm, by decide⟩, fun stays => ?_⟩
  obtain ⟨-, quiet⟩ := stays [deliver default 0 [1, 2, 3, 4]] _ _ (List.prefix_refl _) rfl
  exact quiet (.wrotePiece 0 [1, 2, 3, 4] true) (by decide) (Or.inl ⟨_, _, rfl⟩)

end Written

end MotteSeed.Persistence
