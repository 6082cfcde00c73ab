import MotteSeed.HonestPeers
import MotteSeed.DownloadedFiles

/-! Downloads from peers that deliver the torrent's own bytes, down to the files: what the
disk holds is then the torrent itself, piece by piece as the blocks arrive. -/
namespace MotteSeed.HonestDownload
open Toolkit Toolkit.Checked Toolkit.HashTable Toolkit.Runs Toolkit.ByteImage PeerWire
  PeerConnection TorrentMeta PieceStore PieceShape PieceInvariant PieceLayout Downloads
  DownloadSafety PieceStates Persistence HonestPeers Disk DiskFiles DiskImage DownloadedFiles
open SharedFiles hiding openEntries writeFiles writeMultiFilePiece

section Answers

theorem brings_answered (pieces : HashMap UInt32 Piece) (index : UInt32) (offset : Nat)
    (written : Bool) (call : Call) :
    Brings pieces index offset (answered written call) ↔ Brings pieces index offset call := by
  cases call with
  | addPeer | removePeer | setDiskIo => exact Iff.rfl
  | event event peerIp choice =>
      constructor
      · rintro ⟨begin, block, _, _, piece, slot, ⟨⟩, rest⟩
        exact ⟨begin, block, peerIp, choice, piece, slot, rfl, rest⟩
      · rintro ⟨begin, block, _, _, piece, slot, ⟨⟩, rest⟩
        exact ⟨begin, block, peerIp, { choice with written }, piece, slot, rfl, rest⟩

theorem genuine_answered {sha1 : Bytes → Hash} {info : Info} (source : Source sha1 info)
    (pieces : HashMap UInt32 Piece) (written : Bool) (call : Call) :
    Genuine source pieces (answered written call) ↔ Genuine source pieces call := by
  cases call with
  | addPeer | removePeer | setDiskIo => exact Iff.rfl
  | event event peerIp choice =>
      constructor
      · rintro genuine index begin block _ _ piece slot ⟨⟩
        exact genuine index begin block peerIp { choice with written } piece slot rfl
      · rintro genuine index begin block _ _ piece slot ⟨⟩
        exact genuine index begin block peerIp choice piece slot rfl

end Answers

section Writes

variable {sha1 : Bytes → Hash} (torrent : Torrent) (blockSize : UInt32)
  (start : DownloadManager) (began : DownloadManager.new torrent blockSize = some start)
  (narrow : hashCount torrent.info ≤ 2 ^ 32) (source : Source sha1 torrent.info)
include began narrow

theorem held_ready (positive : 0 < torrent.info.pieceLength) (past : List Call) (index : UInt32)
    (piece : Piece) (held : Held torrent start source past index piece) (data : Bytes)
    (ready : piece.getPieceData = some data) :
    data = slice source.bytes (index.toNat * torrent.info.pieceLength)
      torrent.info.pieceLength := by
  have sound := held.descends.sound
  have complete := data_complete piece data ready
  obtain ⟨known, length, -⟩ :=
    descends_known torrent blockSize start began narrow index piece held.descends
  obtain ⟨exact, -⟩ := genuine_piece_verified torrent source index piece known length sound.tiled
    (by omega) (complete_all_received sha1 piece sound complete) held.stored
  obtain ⟨state, -, -⟩ := piece_data_verified sha1 piece sound data ready
  rw [Piece.getPieceData, if_pos state, stored_eq_hashed piece sound.tiled, exact] at ready
  exact (Option.some.inj ready).symm

theorem genuine_writes (positive : 0 < torrent.info.pieceLength) (finish : DownloadManager)
    (calls : List Call) (log : List Action)
    (genuine : ∀ call ∈ calls, Genuine source start.pieceManager.pieces call)
    (ran : run (downloads sha1) start calls = some (finish, log)) (index : UInt32)
    (data : Bytes) (ok : Bool) (wrote : .wrotePiece index data ok ∈ log) :
    data = slice source.bytes (index.toNat * torrent.info.pieceLength)
      torrent.info.pieceLength := by
  refine run_performed sha1 start calls (fun _ _ log => ∀ index data ok,
    .wrotePiece index data ok ∈ log → data = slice source.bytes
      (index.toNat * torrent.info.pieceLength) torrent.info.pieceLength) (by simp) ?_ calls
    (List.prefix_refl calls) finish log ran index data ok wrote
  intro past call manager log inside before known index data ok member
  rcases List.mem_append.mp member with earlier | now
  · exact known index data ok earlier
  · obtain ⟨begin, block, peerIp, choice, piece, rfl, found, ready⟩ :=
      step_wrote sha1 _ _ _ _ (perform_step sha1 manager call) index data ok now
    have held := run_held torrent blockSize start began narrow source positive manager past log
      (fun other there => genuine other (inside.subset (List.mem_append_left _ there))) before
      index piece found
    have next := held_delivered torrent blockSize start began narrow source positive past index
      begin block peerIp choice piece held
      (genuine _ (inside.subset (List.mem_append_right past List.mem_cons_self)))
    exact held_ready torrent blockSize start began narrow source positive _ index _ next data ready

end Writes

section Files

variable (profile : Profile) (sha1 : Bytes → Hash) (torrent : Torrent) (blockSize : UInt32)
  (start : DownloadManager) (began : DownloadManager.new torrent blockSize = some start)
  (storable : Storable torrent.info) (source : Source sha1 torrent.info) (disk : DiskIo)
  (finish : Client DiskIo) (calls : List Call) (log : List Action)
  (short : ∀ call ∈ calls, ShortBlock call)
  (genuine : ∀ call ∈ calls, Genuine source start.pieceManager.pieces call)
  (ran : run (entryClients profile sha1) ⟨setDiskIo start, disk⟩ calls = some (finish, log))

def Whole (index : UInt32) (piece : Piece) : Prop :=
  ∀ offset slot, piece.blocks.lookup offset = some slot →
    ∃ call ∈ calls, Brings start.pieceManager.pieces index offset call

include short genuine ran in
theorem genuine_manager_run :
    ∃ taken, run (downloads sha1) start taken = some (finish.manager, log) ∧
      (∀ call ∈ taken, Genuine source start.pieceManager.pieces call) ∧
      ∀ index offset, (∃ call ∈ calls, Brings start.pieceManager.pieces index offset call) →
        ∃ call ∈ taken, Brings start.pieceManager.pieces index offset call := by
  obtain ⟨taken, goes, -, same⟩ :=
    client_manager_run profile sha1 start disk finish calls log short ran
  refine ⟨.setDiskIo :: taken, goes, fun call member => ?_, ?_⟩
  · rcases List.mem_cons.mp member with rfl | later
    · rintro _ _ _ _ _ _ _ ⟨⟩
    · obtain ⟨given, there, equal⟩ := answered_mem taken calls same call later
      rw [← genuine_answered source _ true, equal, genuine_answered]
      exact genuine given there
  · rintro index offset ⟨call, member, brings⟩
    obtain ⟨other, there, equal⟩ := answered_mem calls taken same.symm call member
    rw [← brings_answered _ _ _ true, equal, brings_answered] at brings
    exact ⟨other, List.mem_cons_of_mem _ there, brings⟩

include began storable short genuine ran in
/-- A piece whose blocks have all been brought is complete and reads back as the torrent's
bytes. -/
theorem whole_piece_reads
    (sized : Sized torrent.info.fileDetails torrent.info.pieceLength disk) (index : UInt32)
    (origin : Piece) (known : start.pieceManager.pieces.lookup index = some origin)
    (whole : Whole start calls index origin) :
    (∃ piece, finish.manager.pieceManager.pieces.lookup index = some piece ∧
        piece.isComplete = true) ∧
      finish.disk.readPiece profile index = .ok (slice source.bytes
        (index.toNat * torrent.info.pieceLength) torrent.info.pieceLength) := by
  have narrow := Nat.le_of_lt (storable_count torrent.info storable)
  obtain ⟨taken, goes, true_to, brings⟩ := genuine_manager_run profile sha1 torrent start source
    disk finish calls log short genuine ran
  have there := run_keys sha1 start finish.manager taken log goes index
  rw [known] at there
  obtain ⟨piece, found⟩ := Option.isSome_iff_exists.mp there
  obtain ⟨other, again, shape⟩ :=
    (run_descends sha1 torrent blockSize start _ taken log began goes index piece found).origin
  obtain rfl := Option.some.inj (known.symm.trans again)
  have complete := (complete_iff_brought torrent blockSize start began narrow source
    storable.positive _ taken log true_to goes index piece found).mpr fun offset slot present => by
      obtain ⟨first, there, -⟩ := same_shape_slot origin piece shape offset slot present
      exact brings index offset (whole offset first there)
  have persisted := client_persisted profile sha1 torrent blockSize start began storable disk
    sized finish calls log short ran
  obtain ⟨data, wrote, -⟩ := persisted.stored index piece found complete
  obtain ⟨last, read, member⟩ := client_reads_last profile sha1 torrent blockSize start began
    storable disk sized finish calls log short ran index data true wrote
  obtain ⟨action, listed, same⟩ := List.mem_filterMap.mp member
  cases action with
  | sent => cases same
  | wrotePiece index data ok =>
      obtain ⟨⟩ := same
      rw [genuine_writes torrent blockSize start began narrow source storable.positive _ taken log
        true_to goes index last ok listed] at read
      exact ⟨⟨piece, found, complete⟩, read⟩

end Files

theorem entry_genuine_download (profile : Profile) (sha1 : Bytes → Hash) (torrent : Torrent)
    (blockSize : UInt32) (start : DownloadManager)
    (began : DownloadManager.new torrent blockSize = some start)
    (storable : Storable torrent.info) (source : Source sha1 torrent.info) (disk : DiskIo)
    (sized : Sized torrent.info.fileDetails torrent.info.pieceLength disk)
    (calls : List Call) (short : ∀ call ∈ calls, ShortBlock call)
    (genuine : ∀ call ∈ calls, Genuine source start.pieceManager.pieces call) :
    ∃ finish log,
      run (entryClients profile sha1) ⟨setDiskIo start, disk⟩ calls = some (finish, log) ∧
      (∀ index piece, start.pieceManager.pieces.lookup index = some piece →
        Whole start calls index piece →
        finish.disk.readPiece profile index = .ok (slice source.bytes
          (index.toNat * torrent.info.pieceLength) torrent.info.pieceLength)) ∧
      ((∀ index piece, start.pieceManager.pieces.lookup index = some piece →
          Whole start calls index piece) →
        finish.manager.pieceManager.isDownloadComplete = true ∧
          finish.disk.files.flatten = source.bytes) := by
  have count := Nat.le_of_lt (storable_count torrent.info storable)
  obtain ⟨finish, log, ran⟩ :=
    client_total profile sha1 torrent blockSize start began storable disk sized calls short
  obtain ⟨⟨results, written⟩, -⟩ := client_written profile sha1 torrent blockSize start began
    storable disk sized finish calls log short ran
  have reads := whole_piece_reads profile sha1 torrent blockSize start began storable source disk
    finish calls log short genuine ran sized
  refine ⟨finish, log, ran, fun index piece known whole => (reads index piece known whole).2,
    fun whole => ⟨?_, ?_⟩⟩
  · refine (all_values_iff _ _).mpr fun index piece found => ?_
    obtain ⟨taken, goes, -⟩ := genuine_manager_run profile sha1 torrent start source disk finish
      calls log short genuine ran
    have there := run_keys sha1 start finish.manager taken log goes index
    rw [found] at there
    obtain ⟨origin, known⟩ := Option.isSome_iff_exists.mp there.symm
    obtain ⟨⟨other, again, complete⟩, -⟩ := reads index origin known (whole index origin known)
    obtain rfl := Option.some.inj (found.symm.trans again)
    exact complete
  · have total := sized_flatten torrent.info.fileDetails torrent.info.pieceLength finish.disk
      written.sized
    refine slices_ext _ _ torrent.info.pieceLength (hashCount torrent.info)
      (by rw [total, source.size]) (by rw [total, storable.whole]) fun i less => ?_
    obtain ⟨origin, known⟩ := manager_new_has torrent blockSize _
      (new_piece_manager torrent blockSize start began) i less
    have word := word_index i _ less count
    obtain ⟨valid, size⟩ := storable_valid torrent.info storable (UInt32.ofNat i) (by rwa [word])
    obtain ⟨small, bounded⟩ := piece_narrow torrent.info.fileDetails torrent.info.pieceLength
      storable.positive storable.narrow _ valid
    have read := (reads _ origin known (whole _ origin known)).2
    rw [read_piece_slice profile torrent.info.fileDetails torrent.info.pieceLength
      storable.positive finish.disk written.sized _ small bounded valid (storable.narrow _ valid),
      size, pieceStart, word] at read
    exact Except.ok.inj read

def bothBlocks : List Call := [deliver default 2 [3, 4], deliver default 0 [1, 2]]

theorem both_blocks_genuine :
    ∀ call ∈ bothBlocks, Genuine oneSource twoBlocks.pieceManager.pieces call := by
  intro call member
  rcases List.mem_pair.mp member with rfl | rfl
  all_goals
    rintro index begin block peerIp choice piece slot ⟨⟩ - - fits
    rw [← fits]
    decide

end MotteSeed.HonestDownload
