import MotteSeed.Persistence
import MotteSeed.PieceLayout
import MotteSeed.DiskImage
import MotteSeed.SharedFiles
import MotteSeed.Toolkit.Simulation

/-! The download manager together with the disk that `set_disk_io` hands it. What
`write_piece` returns is no longer up to the surroundings: it is what the files make of
the write. The pair refines the manager and the disk on their own. -/
namespace MotteSeed.DownloadedFiles
open Toolkit Toolkit.Checked Toolkit.HashTable Toolkit.Runs PeerWire PeerConnection TorrentMeta
  PieceStore PieceShape PieceInvariant PieceLayout Downloads DownloadSafety Persistence Disk
  DiskFiles DiskImage
open SharedFiles hiding openEntries writeFiles writeMultiFilePiece

structure Client (Storage : Type) where
  manager : DownloadManager
  disk : Storage

section Handlers

variable {Storage : Type}
  (write : Storage → UInt32 → Bytes → Storage × Except (Fault DiskError) Unit)
  (sha1 : Bytes → Hash)

/-- `handle_recieve_piece` with its disk; `none` is a panic inside `write_piece`. -/
def Client.handleRecievePiece (client : Client Storage) (choice : Choice) (pieceIndex : UInt32)
    (begin : Nat) (block : Bytes) : Option (Client Storage × List Action) :=
  let received := client.manager.pieceManager.receiveBlock sha1 pieceIndex begin block
  let stored : DownloadManager := { client.manager with pieceManager := received.1 }
  if received.2 ∧ stored.diskIo then
    match stored.pieceManager.getPieceData pieceIndex with
    | some data =>
        let wrote := write client.disk pieceIndex data
        match wrote.2 with
        | .ok () =>
            let marked : DownloadManager := { stored with
              pieceManager := stored.pieceManager.markPieceWritten pieceIndex }
            some ({ manager := marked, disk := wrote.1 },
              .wrotePiece pieceIndex data true :: broadcastHave choice stored pieceIndex)
        | .error (.error _) =>
            some ({ manager := stored, disk := wrote.1 }, [.wrotePiece pieceIndex data false])
        | .error .overflow | .error .bounds => none
    | none => some ({ client with manager := stored }, [])
  else some ({ client with manager := stored }, [])

def Client.perform (client : Client Storage) : Call → Option (Client Storage × List Action)
  | .event (.receivedPiece index begin block) _ choice =>
      client.handleRecievePiece write sha1 choice index begin.toNat block
  | call =>
      let performed := Downloads.perform sha1 client.manager call
      some ({ client with manager := performed.1 }, performed.2)

def clients : Machine (Client Storage) Call Action := ⟨Client.perform write sha1⟩

def Client.runLoop : Client Storage → List Received → Option (Client Storage × List Action × Bool)
  | client, [] => some (client, [], false)
  | client, received :: rest =>
      let handled := match received with
        | some (event, peerIp, choice) =>
            client.perform write sha1 (.event event peerIp choice)
        | none => some (client, [])
      match handled with
      | none => none
      | some (next, actions) =>
          if next.manager.pieceManager.isDownloadComplete then some (next, actions, true)
          else
            match Client.runLoop next rest with
            | none => none
            | some (finish, later, returned) => some (finish, actions ++ later, returned)

end Handlers

abbrev entryClients (profile : Profile) (sha1 : Bytes → Hash) :
    Machine (Client DiskIo) Call Action :=
  clients (DiskIo.writePiece profile) sha1

section Refinement

variable (profile : Profile) (sha1 : Bytes → Hash)

/-- The call with the disk's answer in the place of the guess. -/
def answered (written : Bool) : Call → Call
  | .event event peerIp choice => .event event peerIp { choice with written }
  | call => call

theorem answered_self (call : Call) : ∃ written, answered written call = call := by
  cases call with
  | addPeer | removePeer | setDiskIo => exact ⟨true, rfl⟩
  | event event peerIp choice => exact ⟨choice.written, rfl⟩

theorem answered_again (first second : Bool) (call : Call) :
    answered first (answered second call) = answered first call := by
  cases call <;> rfl

theorem answered_mem (taken calls : List Call)
    (same : taken.map (answered true) = calls.map (answered true)) (call : Call)
    (member : call ∈ taken) : ∃ given ∈ calls, answered true call = answered true given := by
  have there : answered true call ∈ taken.map (answered true) :=
    List.mem_map.mpr ⟨call, member, rfl⟩
  rw [same] at there
  obtain ⟨given, listed, equal⟩ := List.mem_map.mp there
  exact ⟨given, listed, equal.symm⟩

theorem short_answered (written : Bool) (call : Call) :
    ShortBlock (answered written call) ↔ ShortBlock call := by
  cases call with
  | addPeer | removePeer | setDiskIo => exact Iff.rfl
  | event event peerIp choice => cases event <;> exact Iff.rfl

def writeOf : Action → Option Write
  | .wrotePiece piece data _ => some ⟨piece, data⟩
  | .sent _ _ _ => none

/-- A write that the manager takes for failed has failed. -/
def Honest (actions : List Action) (results : List (Except (Fault DiskError) Unit)) : Prop :=
  (∃ index data, .wrotePiece index data false ∈ actions) → ∃ result ∈ results, result ≠ .ok ()

theorem broadcast_no_writes (choice : Choice) (manager : DownloadManager) (index : UInt32) :
    (broadcastHave choice manager index).filterMap writeOf = [] := by
  rw [broadcastHave, List.filterMap_map]
  exact List.filterMap_eq_nil_iff.mpr fun _ _ => rfl

theorem step_other_no_writes (manager after : DownloadManager) (call : Call)
    (actions : List Action) (step : Step sha1 manager call after actions)
    (other : ∀ index begin block peerIp choice,
      call ≠ .event (.receivedPiece index begin block) peerIp choice) :
    ∀ action ∈ actions, writeOf action = none := by
  intro action member
  cases action with
  | sent => rfl
  | wrotePiece index data ok =>
      obtain ⟨begin, block, peerIp, choice, piece, same, -, -⟩ :=
        step_wrote sha1 manager after call actions step index data ok member
      exact absurd same (other index begin block peerIp choice)

theorem honest_silent (actions : List Action) (silent : actions.filterMap writeOf = []) :
    Honest actions [] := by
  rintro ⟨index, data, wrote⟩
  cases List.filterMap_eq_nil_iff.mp silent _ wrote

theorem write_run (disk : DiskIo) (piece : UInt32) (data : Bytes) :
    run (writes profile) disk [⟨piece, data⟩] =
      some ((disk.writePiece profile piece data).1, [(disk.writePiece profile piece data).2]) :=
  run_one (writes profile) disk _ ⟨piece, data⟩ _ rfl

theorem arrival_refines (client next : Client DiskIo) (choice : Choice) (index : UInt32)
    (begin : Nat) (block : Bytes) (actions : List Action)
    (stepped : client.handleRecievePiece (DiskIo.writePiece profile) sha1 choice index begin block =
      some (next, actions)) :
    ∃ written results,
      Downloads.handleRecievePiece sha1 { choice with written } client.manager index begin block =
          (next.manager, actions) ∧
        run (writes profile) client.disk (actions.filterMap writeOf) = some (next.disk, results) ∧
        Honest actions results := by
  simp only [Client.handleRecievePiece] at stepped
  simp only [Downloads.handleRecievePiece]
  by_cases ready : (client.manager.pieceManager.receiveBlock sha1 index begin block).2 = true ∧
      client.manager.diskIo = true
  · rw [if_pos ready] at stepped
    simp only [if_pos ready]
    cases whole : (client.manager.pieceManager.receiveBlock sha1 index begin
        block).1.getPieceData index with
    | some data =>
      simp only [whole] at stepped ⊢
      have wrote := write_run profile client.disk index data
      split at stepped
      · obtain ⟨rfl, rfl⟩ := Prod.mk.inj (Option.some.inj stepped)
        refine ⟨true, [(client.disk.writePiece profile index data).2], rfl, ?_, ?_⟩
        · rw [List.filterMap_cons, broadcast_no_writes]
          exact wrote
        · rintro ⟨other, bytes, failed⟩
          rcases List.mem_cons.mp failed with same | told
          · cases same
          · obtain ⟨peer, -, same⟩ := List.mem_map.mp told
            cases same
      · rename_i reason refused
        obtain ⟨rfl, rfl⟩ := Prod.mk.inj (Option.some.inj stepped)
        refine ⟨false, [(client.disk.writePiece profile index data).2], rfl, wrote,
          fun _ => ⟨_, List.mem_singleton_self _, ?_⟩⟩
        rw [refused]
        nofun
      · cases stepped
      · cases stepped
    | none =>
      simp only [whole] at stepped ⊢
      obtain ⟨rfl, rfl⟩ := Prod.mk.inj (Option.some.inj stepped)
      exact ⟨true, [], rfl, rfl, honest_silent [] rfl⟩
  · rw [if_neg ready] at stepped
    simp only [if_neg ready]
    obtain ⟨rfl, rfl⟩ := Prod.mk.inj (Option.some.inj stepped)
    exact ⟨true, [], rfl, rfl, honest_silent [] rfl⟩

/-- One call on the pair is the call on the manager, with the disk's answer, and the
writes of the call on the disk. -/
theorem client_refines (client next : Client DiskIo) (call : Call) (actions : List Action)
    (stepped : client.perform (DiskIo.writePiece profile) sha1 call = some (next, actions)) :
    ∃ written results,
      Downloads.perform sha1 client.manager (answered written call) = (next.manager, actions) ∧
        run (writes profile) client.disk (actions.filterMap writeOf) = some (next.disk, results) ∧
        Honest actions results := by
  by_cases arrival : ∃ index begin block peerIp choice,
      call = .event (.receivedPiece index begin block) peerIp choice
  · obtain ⟨index, begin, block, peerIp, choice, rfl⟩ := arrival
    exact arrival_refines profile sha1 client next choice index begin.toNat block actions stepped
  · have silent := List.filterMap_eq_nil_iff.mpr
      (step_other_no_writes sha1 _ _ call _ (perform_step sha1 client.manager call)
        fun index begin block peerIp choice same =>
          arrival ⟨index, begin, block, peerIp, choice, same⟩)
    obtain ⟨written, same⟩ := answered_self call
    have performed : client.perform (DiskIo.writePiece profile) sha1 call =
        some ({ client with manager := (Downloads.perform sha1 client.manager call).1 },
          (Downloads.perform sha1 client.manager call).2) := by
      cases call with
      | addPeer | removePeer | setDiskIo => rfl
      | event event peerIp choice =>
          cases event with
          | receivedPiece index begin block =>
              exact absurd ⟨index, begin, block, peerIp, choice, rfl⟩ arrival
          | receivedBitfield | peerUnchoked | receivedHave | peerDisconnected | peerChoked
          | peerInterested | peerNotInterested | requestedBlock | downloadRate => rfl
    obtain ⟨rfl, rfl⟩ := Prod.mk.inj (Option.some.inj (performed.symm.trans stepped))
    exact ⟨written, [], by rw [same], by rw [silent]; rfl, honest_silent _ silent⟩

theorem client_run (start finish : Client DiskIo) (calls : List Call) (log : List Action)
    (ran : run (entryClients profile sha1) start calls = some (finish, log)) :
    (∃ taken, run (downloads sha1) start.manager taken = some (finish.manager, log) ∧
      taken.map (answered true) = calls.map (answered true)) ∧
    ∃ results, run (writes profile) start.disk (log.filterMap writeOf) =
      some (finish.disk, results) ∧ Honest log results := by
  constructor
  · have simulated := run_simulates (entryClients profile sha1) (downloads sha1) Client.manager
      (fun calls _ log taken replies => replies = log ∧
        taken.map (answered true) = calls.map (answered true))
      start calls ⟨rfl, rfl⟩ ?_ finish log ran
    · obtain ⟨taken, _, goes, rfl, same⟩ := simulated
      exact ⟨taken, goes, same⟩
    · rintro past call state _ next actions taken log - - ⟨rfl, same⟩ stepped
      obtain ⟨written, results, performed, -, -⟩ :=
        client_refines profile sha1 state next call actions stepped
      refine ⟨[answered written call], actions,
        run_one (downloads sha1) _ _ _ _ (congrArg some performed), rfl, ?_⟩
      rw [List.map_append, List.map_append, same, List.map_singleton, answered_again,
        List.map_singleton]
  · have simulated := run_simulates (entryClients profile sha1) (writes profile) Client.disk
      (fun _ _ log taken results => taken = log.filterMap writeOf ∧ Honest log results)
      start calls ⟨rfl, by simp [Honest]⟩ ?_ finish log ran
    · obtain ⟨_, results, goes, rfl, honest⟩ := simulated
      exact ⟨results, goes, honest⟩
    · rintro past call state log next actions _ before - - ⟨rfl, honest⟩ stepped
      obtain ⟨written, results, -, wrote, true_to⟩ :=
        client_refines profile sha1 state next call actions stepped
      refine ⟨actions.filterMap writeOf, results, wrote, (List.filterMap_append).symm, ?_⟩
      rintro ⟨index, data, failed⟩
      rcases List.mem_append.mp failed with earlier | now
      · obtain ⟨result, member, bad⟩ := honest ⟨index, data, earlier⟩
        exact ⟨result, List.mem_append_left _ member, bad⟩
      · obtain ⟨result, member, bad⟩ := true_to ⟨index, data, now⟩
        exact ⟨result, List.mem_append_right _ member, bad⟩

theorem client_manager_run (start : DownloadManager) (disk : DiskIo) (finish : Client DiskIo)
    (calls : List Call) (log : List Action) (short : ∀ call ∈ calls, ShortBlock call)
    (ran : run (entryClients profile sha1) ⟨setDiskIo start, disk⟩ calls = some (finish, log)) :
    ∃ taken, run (downloads sha1) start (.setDiskIo :: taken) = some (finish.manager, log) ∧
      (∀ call ∈ Call.setDiskIo :: taken, ShortBlock call) ∧
      taken.map (answered true) = calls.map (answered true) := by
  obtain ⟨⟨taken, goes, same⟩, -⟩ := client_run profile sha1 _ finish calls log ran
  refine ⟨taken, (run_cons_iff _ _ _ _ _ _).mpr ⟨_, [], log, rfl, goes, rfl⟩, ?_, same⟩
  intro call member
  rcases List.mem_cons.mp member with rfl | later
  · trivial
  · obtain ⟨given, there, equal⟩ := answered_mem taken calls same call later
    rw [← short_answered, equal, short_answered]
    exact short given there

theorem perform_ends (client : Client DiskIo) (call : Call)
    (fine : ∀ index begin block peerIp choice piece data,
      call = .event (.receivedPiece index begin block) peerIp choice →
      client.manager.pieceManager.pieces.lookup index = some piece →
      (piece.receiveBlock sha1 begin.toNat block).1.getPieceData = some data →
      (client.disk.writePiece profile index data).2 = .ok ()) :
    ∃ next actions,
      client.perform (DiskIo.writePiece profile) sha1 call = some (next, actions) := by
  cases call with
  | addPeer | removePeer | setDiskIo => exact ⟨_, _, rfl⟩
  | event event peerIp choice =>
      cases event with
      | receivedPiece index begin block =>
          simp only [Client.perform, Client.handleRecievePiece]
          split
          · rename_i ready
            cases found : client.manager.pieceManager.pieces.lookup index with
            | none => simp [PieceManager.receiveBlock, found] at ready
            | some piece =>
                have stored : (client.manager.pieceManager.receiveBlock sha1 index begin.toNat
                    block).1.getPieceData index =
                      (piece.receiveBlock sha1 begin.toNat block).1.getPieceData := by
                  simp only [PieceManager.receiveBlock, found, PieceManager.getPieceData,
                    lookup_modify_self, Option.map_some]
                rw [stored]
                split
                · rename_i data whole
                  rw [fine index begin block peerIp choice piece data rfl found whole]
                  exact ⟨_, _, rfl⟩
                · exact ⟨_, _, rfl⟩
          · exact ⟨_, _, rfl⟩
      | receivedBitfield | peerUnchoked | receivedHave | peerDisconnected | peerChoked
      | peerInterested | peerNotInterested | requestedBlock | downloadRate => exact ⟨_, _, rfl⟩

def arrivals (received : List Received) : List Call :=
  received.filterMap (Option.map fun taken => .event taken.1 taken.2.1 taken.2.2)

/-- Where a run on all the events goes through, the loop is a run on the first of them, up
to the one that completes the download. -/
theorem run_loop_arrivals (client : Client DiskIo) (received : List Received)
    (whole : ∃ last log, run (entryClients profile sha1) client (arrivals received) =
      some (last, log)) :
    ∃ finish log returned,
      client.runLoop (DiskIo.writePiece profile) sha1 received = some (finish, log, returned) ∧
      (∃ past, past <+: arrivals received ∧
        run (entryClients profile sha1) client past = some (finish, log)) ∧
      (returned = true → finish.manager.pieceManager.isDownloadComplete = true) := by
  induction received generalizing client with
  | nil => exact ⟨client, [], false, rfl, ⟨[], List.nil_prefix, rfl⟩, nofun⟩
  | cons taken rest ih =>
      obtain ⟨last, log, ran⟩ := whole
      -- The first result of `recv` is one step, or none at all once the channel is closed.
      obtain ⟨next, actions, first, handled, split, here, further⟩ :
          ∃ next actions, ∃ first : List Call,
            (match taken with
              | some (event, peerIp, choice) =>
                  client.perform (DiskIo.writePiece profile) sha1 (.event event peerIp choice)
              | none => some (client, [])) = some (next, actions) ∧
            arrivals (taken :: rest) = first ++ arrivals rest ∧
            run (entryClients profile sha1) client first = some (next, actions) ∧
            ∃ last log,
              run (entryClients profile sha1) next (arrivals rest) = some (last, log) := by
        cases taken with
        | none => exact ⟨client, [], [], rfl, rfl, rfl, last, log, ran⟩
        | some event =>
            obtain ⟨next, actions, later, performed, goes, -⟩ :=
              (run_cons_iff _ _ _ _ _ _).mp ran
            exact ⟨next, actions, [_], performed, rfl, run_one _ _ _ _ _ performed, last, later,
              goes⟩
      simp only [Client.runLoop, handled]
      by_cases complete : next.manager.pieceManager.isDownloadComplete = true
      · rw [if_pos complete]
        refine ⟨next, actions, true, rfl, ⟨first, ?_, here⟩, fun _ => complete⟩
        rw [split]
        exact List.prefix_append _ _
      · obtain ⟨finish, later, returned, looped, ⟨past, began, goes⟩, ended⟩ := ih next further
        rw [if_neg complete, looped]
        refine ⟨finish, actions ++ later, returned, rfl, ⟨first ++ past, ?_, ?_⟩, ended⟩
        · rw [split]
          exact (List.prefix_append_right_inj first).mpr began
        · exact (run_append_iff _ _ _ _ _ _).mpr ⟨next, actions, later, here, goes, rfl⟩

end Refinement

/-- A torrent that the disk can hold where it belongs: one hash for each full piece,
products below 2^32, and every piece the first one or inside the first file that is not
empty. -/
structure Storable (info : Info) : Prop where
  positive : 0 < info.pieceLength
  whole : info.fileDetails.totalSize = info.pieceLength * hashCount info
  narrow : ∀ piece : UInt32, pieceStart info.pieceLength piece < info.fileDetails.totalSize →
    (piece.toNat + 1) * info.pieceLength < 2 ^ 32
  straight : ∀ piece : UInt32, pieceStart info.pieceLength piece < info.fileDetails.totalSize →
    Straight info.fileDetails info.pieceLength piece

section Storing

variable (info : Info) (storable : Storable info)
include storable

theorem storable_total : info.fileDetails.totalSize < 2 ^ 32 :=
  total_narrow info.fileDetails info.pieceLength storable.positive storable.narrow

theorem storable_count : hashCount info < 2 ^ 32 := by
  have total := storable_total info storable
  have scaled := Nat.le_mul_of_pos_left (hashCount info) storable.positive
  rw [storable.whole] at total
  omega

theorem storable_valid (piece : UInt32) (less : piece.toNat < hashCount info) :
    pieceStart info.pieceLength piece < info.fileDetails.totalSize ∧
      pieceSize info.fileDetails info.pieceLength piece = info.pieceLength := by
  have scaled := Nat.mul_le_mul_right info.pieceLength (Nat.succ_le_of_lt less)
  rw [Nat.succ_mul, Nat.mul_comm (hashCount info), ← storable.whole] at scaled
  have some_bytes := storable.positive
  exact ⟨by rw [pieceStart]; omega, Nat.min_eq_left (by rw [pieceStart]; omega)⟩

end Storing

theorem last_written_mem (calls : List Write) (piece : UInt32) (data : Bytes)
    (wrote : ⟨piece, data⟩ ∈ calls) :
    ∃ last, lastWritten calls piece = some last ∧ ⟨piece, last⟩ ∈ calls := by
  have found : (calls.reverse.find? fun call => call.piece = piece).isSome = true := by
    rw [List.find?_isSome]
    exact ⟨⟨piece, data⟩, List.mem_reverse.mpr wrote, decide_eq_true rfl⟩
  obtain ⟨call, first⟩ := Option.isSome_iff_exists.mp found
  obtain rfl : call.piece = piece := by simpa using List.find?_some first
  exact ⟨call.data, by rw [lastWritten, first]; rfl,
    List.mem_reverse.mp (List.mem_of_find?_eq_some first)⟩

section Verified

variable (profile : Profile) (sha1 : Bytes → Hash) (torrent : Torrent) (blockSize : UInt32)
  (start : DownloadManager) (began : DownloadManager.new torrent blockSize = some start)

def HashesTo (index : Nat) (data : Bytes) : Prop :=
  (sha1 data).toList = ByteImage.slice torrent.info.rawPieces (index * 20) 20

structure Verified (index : UInt32) (data : Bytes) : Prop where
  inside : index.toNat < hashCount torrent.info
  size : data.length = torrent.info.pieceLength
  hashed : HashesTo sha1 torrent index.toNat data

include began in
theorem new_piece_known (narrow : hashCount torrent.info ≤ 2 ^ 32) (index : UInt32)
    (piece : Piece) (found : start.pieceManager.pieces.lookup index = some piece) :
    index.toNat < hashCount torrent.info ∧ piece.length = torrent.info.pieceLength := by
  obtain ⟨hash, known, built⟩ := manager_new_lookup torrent blockSize _ narrow
    (new_piece_manager torrent blockSize start began) index piece found
  exact ⟨piece_hash_index torrent.info index.toNat hash known,
    (piece_new_fresh _ _ _ _ piece built).length⟩

include began in
theorem ready_verified (narrow : hashCount torrent.info ≤ 2 ^ 32) (reached : DownloadManager)
    (calls : List Call) (log : List Action) (short : ∀ call ∈ calls, ShortBlock call)
    (ran : run (downloads sha1) start calls = some (reached, log)) (index : UInt32)
    (begin : Nat) (block data : Bytes) (piece : Piece) (fits : block.length < 2 ^ 32)
    (found : reached.pieceManager.pieces.lookup index = some piece)
    (ready : (piece.receiveBlock sha1 begin block).1.getPieceData = some data) :
    Verified sha1 torrent index data := by
  have descends := run_descends sha1 torrent blockSize start reached calls log began ran index
    piece found
  have exact := run_exact sha1 torrent blockSize start reached calls log began short ran index
    piece found
  have next := descends_deliver sha1 start.pieceManager index piece begin block descends
  have next_exact := delivered_exact sha1 piece _ begin block exact fits
    (receive_block_delivered sha1 piece descends.sound begin block)
  obtain ⟨-, same, size⟩ := piece_data_verified sha1 _ next.sound data ready
  obtain ⟨origin, first, shape⟩ := next.origin
  obtain ⟨inside, length⟩ :=
    new_piece_known torrent blockSize start began narrow index origin first
  refine ⟨inside, ?_, ?_⟩
  · rw [size next_exact, shape.length, length]
  · rw [HashesTo, same, shape.hash]
    exact hash_bytes torrent blockSize start narrow began index origin first

include began in
theorem log_verified (narrow : hashCount torrent.info ≤ 2 ^ 32) (reached : DownloadManager)
    (calls : List Call) (log : List Action) (short : ∀ call ∈ calls, ShortBlock call)
    (ran : run (downloads sha1) start calls = some (reached, log)) (index : UInt32)
    (data : Bytes) (ok : Bool) (wrote : .wrotePiece index data ok ∈ log) :
    Verified sha1 torrent index data := by
  refine run_performed sha1 start calls (fun _ _ log => ∀ index data ok,
    .wrotePiece index data ok ∈ log → Verified sha1 torrent index data) (by simp) ?_ calls
    (List.prefix_refl calls) reached log ran index data ok wrote
  intro past call manager log inside before known index data ok member
  rcases List.mem_append.mp member with earlier | now
  · exact known index data ok earlier
  · obtain ⟨begin, block, peerIp, choice, piece, rfl, found, ready⟩ :=
      step_wrote sha1 _ _ _ _ (perform_step sha1 manager call) index data ok now
    have listed : ∀ other ∈ past ++ [.event (.receivedPiece index begin block) peerIp choice],
        ShortBlock other := fun other there => short other (inside.subset there)
    exact ready_verified sha1 torrent blockSize start began narrow manager past log
      (fun other there => listed other (List.mem_append_left _ there)) before index begin.toNat
      block data piece (listed _ (List.mem_append_right past List.mem_cons_self)) found ready

end Verified

section Client

variable (profile : Profile) (sha1 : Bytes → Hash) (torrent : Torrent) (blockSize : UInt32)
  (start : DownloadManager) (began : DownloadManager.new torrent blockSize = some start)
  (storable : Storable torrent.info) (disk : DiskIo)
  (sized : Sized torrent.info.fileDetails torrent.info.pieceLength disk)
include began storable

theorem client_log_verified (finish : Client DiskIo) (calls : List Call) (log : List Action)
    (short : ∀ call ∈ calls, ShortBlock call)
    (ran : run (entryClients profile sha1) ⟨setDiskIo start, disk⟩ calls = some (finish, log))
    (call : Write) (member : call ∈ log.filterMap writeOf) :
    Verified sha1 torrent call.piece call.data := by
  obtain ⟨taken, goes, fits, -⟩ :=
    client_manager_run profile sha1 start disk finish calls log short ran
  obtain ⟨action, there, same⟩ := List.mem_filterMap.mp member
  cases action with
  | sent => cases same
  | wrotePiece index data ok =>
      obtain rfl := Option.some.inj same
      exact log_verified sha1 torrent blockSize start began
        (Nat.le_of_lt (storable_count torrent.info storable)) finish.manager _ log fits goes index
        data ok there

include sized in
/-- In every run of the pair the files are the flat image of the writes so far, and no
write has failed. -/
theorem client_written (finish : Client DiskIo) (calls : List Call) (log : List Action)
    (short : ∀ call ∈ calls, ShortBlock call)
    (ran : run (entryClients profile sha1) ⟨setDiskIo start, disk⟩ calls = some (finish, log)) :
    (∃ results, Written torrent.info.fileDetails torrent.info.pieceLength disk
        (log.filterMap writeOf) finish.disk results) ∧
      ∀ index data, .wrotePiece index data false ∉ log := by
  have known := client_log_verified profile sha1 torrent blockSize start began storable disk
    finish calls log short ran
  obtain ⟨-, results, wrote, honest⟩ := client_run profile sha1 _ finish calls log ran
  have valid := fun call member =>
    storable_valid torrent.info storable call.piece (known call member).inside
  have written := straight_run profile torrent.info.fileDetails torrent.info.pieceLength
    storable.positive storable.narrow disk finish.disk _ results sized
    (fun call member => (valid call member).1)
    (fun call member => (known call member).size.trans (valid call member).2.symm)
    (fun call member => storable.straight call.piece (valid call member).1) wrote
  refine ⟨⟨results, written⟩, fun index data failed => ?_⟩
  obtain ⟨result, member, bad⟩ := honest ⟨index, data, failed⟩
  exact bad (written.succeeded result member)

include sized in
theorem client_total (calls : List Call) (short : ∀ call ∈ calls, ShortBlock call) :
    ∃ finish log, run (entryClients profile sha1) ⟨setDiskIo start, disk⟩ calls =
      some (finish, log) := by
  induction calls using List.reverseRecOn with
  | nil => exact ⟨_, [], rfl⟩
  | append_singleton past call ih =>
      have before : ∀ other ∈ past, ShortBlock other :=
        fun other member => short other (List.mem_append_left _ member)
      obtain ⟨middle, log, ran⟩ := ih before
      obtain ⟨⟨results, written⟩, -⟩ := client_written profile sha1 torrent blockSize start began
        storable disk sized middle past log before ran
      obtain ⟨taken, goes, fits, -⟩ :=
        client_manager_run profile sha1 start disk middle past log before ran
      obtain ⟨next, actions, performed⟩ := perform_ends profile sha1 middle call (by
        rintro index begin block peerIp choice piece data rfl found ready
        have verified := ready_verified sha1 torrent blockSize start began
          (Nat.le_of_lt (storable_count torrent.info storable)) middle.manager _ log fits goes
          index begin.toNat block data piece
          (short _ (List.mem_append_right past List.mem_cons_self)) found ready
        obtain ⟨valid, size⟩ := storable_valid torrent.info storable index verified.inside
        obtain ⟨files, wrote, -⟩ := straight_write profile torrent.info.fileDetails
          torrent.info.pieceLength storable.positive storable.narrow middle.disk written.sized index
          valid (storable.straight index valid) data (verified.size.trans size.symm)
        rw [wrote])
      exact ⟨next, log ++ actions,
        (run_snoc_iff _ _ _ _ _ _).mpr ⟨middle, log, actions, ran, performed, rfl⟩⟩

include sized in
theorem client_reads_last (finish : Client DiskIo) (calls : List Call) (log : List Action)
    (short : ∀ call ∈ calls, ShortBlock call)
    (ran : run (entryClients profile sha1) ⟨setDiskIo start, disk⟩ calls = some (finish, log))
    (index : UInt32) (data : Bytes) (ok : Bool) (wrote : .wrotePiece index data ok ∈ log) :
    ∃ last, finish.disk.readPiece profile index = .ok last ∧
      ⟨index, last⟩ ∈ log.filterMap writeOf := by
  have known := client_log_verified profile sha1 torrent blockSize start began storable disk
    finish calls log short ran
  obtain ⟨⟨results, written⟩, -⟩ := client_written profile sha1 torrent blockSize start began
    storable disk sized finish calls log short ran
  have valid := fun call member =>
    storable_valid torrent.info storable call.piece (known call member).inside
  have flat := flat_of_written profile torrent.info.fileDetails torrent.info.pieceLength
    storable.positive storable.narrow disk finish.disk _ results sized
    (fun call member => (valid call member).1)
    (fun call member => (known call member).size.trans (valid call member).2.symm) written
  obtain ⟨last, found, member⟩ := last_written_mem (log.filterMap writeOf) index data
    (List.mem_filterMap.mpr ⟨_, wrote, rfl⟩)
  have read := flat.reads index (storable_valid torrent.info storable index
    (known _ member).inside).1
  rw [found] at read
  exact ⟨last, read, member⟩

include sized in
theorem client_reads (finish : Client DiskIo) (calls : List Call) (log : List Action)
    (short : ∀ call ∈ calls, ShortBlock call)
    (ran : run (entryClients profile sha1) ⟨setDiskIo start, disk⟩ calls = some (finish, log))
    (index : UInt32) (data : Bytes) (ok : Bool) (wrote : .wrotePiece index data ok ∈ log) :
    ∃ stored, finish.disk.readPiece profile index = .ok stored ∧
      Verified sha1 torrent index stored := by
  obtain ⟨last, read, member⟩ := client_reads_last profile sha1 torrent blockSize start began
    storable disk sized finish calls log short ran index data ok wrote
  exact ⟨last, read, client_log_verified profile sha1 torrent blockSize start began storable disk
    finish calls log short ran ⟨index, last⟩ member⟩

include sized in
theorem client_persisted (finish : Client DiskIo) (calls : List Call) (log : List Action)
    (short : ∀ call ∈ calls, ShortBlock call)
    (ran : run (entryClients profile sha1) ⟨setDiskIo start, disk⟩ calls = some (finish, log)) :
    Persisted sha1 start.pieceManager finish.manager log := by
  obtain ⟨-, fine⟩ := client_written profile sha1 torrent blockSize start began storable disk
    sized finish calls log short ran
  obtain ⟨⟨taken, goes, -⟩, -⟩ := client_run profile sha1 _ finish calls log ran
  refine run_persisted sha1 start (setDiskIo start) finish.manager taken [] log ⟨rfl, ?_, ?_⟩
    fine goes
  · exact run_descends sha1 torrent blockSize start (setDiskIo start) [.setDiskIo] [] began rfl
  · intro key piece found complete
    rw [start_missing torrent blockSize start began key piece found] at complete
    cases complete

end Client

theorem one_block_storable : Storable oneBlock.info := by
  refine ⟨by decide, by decide, ?_, ?_⟩
  · intro piece valid
    change piece.toNat * 4 < 4 at valid
    change (piece.toNat + 1) * 4 < 2 ^ 32
    omega
  · exact fun piece valid =>
      single_straight oneBlock.info.fileDetails 4 (by decide) piece valid 4 rfl

section Entries

variable (profile : Profile) (sha1 : Bytes → Hash) (torrent : Torrent) (blockSize : UInt32)
  (start : DownloadManager) (began : DownloadManager.new torrent blockSize = some start)
  (storable : Storable torrent.info) (disk : DiskIo)
  (sized : Sized torrent.info.fileDetails torrent.info.pieceLength disk)
include began storable sized

theorem entry_pieces_on_disk (calls : List Call) (short : ∀ call ∈ calls, ShortBlock call) :
    ∃ finish log,
      run (entryClients profile sha1) ⟨setDiskIo start, disk⟩ calls = some (finish, log) ∧
      finish.disk.files.map List.length = fileLengths torrent.info.fileDetails ∧
      (∀ index data ok, .wrotePiece index data ok ∈ log → ok = true ∧
        ∃ stored, finish.disk.readPiece profile index = .ok stored ∧
          HashesTo sha1 torrent index.toNat stored) ∧
      ∀ index piece, finish.manager.pieceManager.pieces.lookup index = some piece →
        piece.isComplete = true → ∃ stored, finish.disk.readPiece profile index = .ok stored ∧
          sha1 stored = piece.hash ∧ HashesTo sha1 torrent index.toNat stored := by
  obtain ⟨finish, log, ran⟩ :=
    client_total profile sha1 torrent blockSize start began storable disk sized calls short
  obtain ⟨⟨results, written⟩, fine⟩ := client_written profile sha1 torrent blockSize start began
    storable disk sized finish calls log short ran
  have reads := client_reads profile sha1 torrent blockSize start began storable disk sized finish
    calls log short ran
  refine ⟨finish, log, ran, written.sized.lengths, ?_, ?_⟩
  · intro index data ok wrote
    obtain ⟨stored, read, verified⟩ := reads index data ok wrote
    refine ⟨?_, stored, read, verified.hashed⟩
    cases ok with
    | true => rfl
    | false => exact absurd wrote (fine index data)
  · intro index piece found complete
    have persisted := client_persisted profile sha1 torrent blockSize start began storable disk
      sized finish calls log short ran
    obtain ⟨data, wrote, -⟩ := persisted.stored index piece found complete
    obtain ⟨stored, read, verified⟩ := reads index data true wrote
    obtain ⟨origin, first, shape⟩ := (persisted.descends index piece found).origin
    have hash := hash_bytes torrent blockSize start
      (Nat.le_of_lt (storable_count torrent.info storable)) began index origin first
    refine ⟨stored, read, Vector.toList_inj.mp ?_, verified.hashed⟩
    rw [shape.hash, hash]
    exact verified.hashed

theorem entry_download_finished (setup : List Call) (prepares : ∀ call ∈ setup, Setup call)
    (received : List Received) (short : ∀ call ∈ arrivals received, ShortBlock call) :
    ∃ ready opening finish log returned,
      run (entryClients profile sha1) ⟨setDiskIo start, disk⟩ setup = some (ready, opening) ∧
      ready.runLoop (DiskIo.writePiece profile) sha1 received = some (finish, log, returned) ∧
      (returned = true →
        finish.disk.files.map List.length = fileLengths torrent.info.fileDetails ∧
        ∀ i, i < hashCount torrent.info → HashesTo sha1 torrent i (ByteImage.slice
          finish.disk.files.flatten (i * torrent.info.pieceLength) torrent.info.pieceLength)) := by
  have count := Nat.le_of_lt (storable_count torrent.info storable)
  have fits : ∀ call ∈ setup ++ arrivals received, ShortBlock call := by
    intro call member
    rcases List.mem_append.mp member with early | late
    · have prepare := prepares call early
      cases call with
      | addPeer | removePeer | setDiskIo => trivial
      | event => cases prepare
    · exact short call late
  obtain ⟨last, all, whole⟩ :=
    client_total profile sha1 torrent blockSize start began storable disk sized _ fits
  obtain ⟨ready, opening, rest, prepared, goes, -⟩ := (run_append_iff _ _ _ _ _ _).mp whole
  obtain ⟨finish, log, returned, looped, ⟨past, first, ran⟩, ended⟩ :=
    run_loop_arrivals profile sha1 ready received ⟨last, rest, goes⟩
  refine ⟨ready, opening, finish, log, returned, prepared, looped, fun done => ?_⟩
  have reached := (run_append_iff _ _ _ _ _ _).mpr ⟨ready, opening, log, prepared, ran, rfl⟩
  have taken : ∀ call ∈ setup ++ past, ShortBlock call := fun call member =>
    fits call (((List.prefix_append_right_inj setup).mpr first).subset member)
  obtain ⟨⟨results, written⟩, -⟩ := client_written profile sha1 torrent blockSize start began
    storable disk sized finish _ _ taken reached
  have persisted := client_persisted profile sha1 torrent blockSize start began storable disk
    sized finish _ _ taken reached
  refine ⟨written.sized.lengths, fun i less => ?_⟩
  -- The keys are still those of the new manager, and the piece under this one is complete.
  obtain ⟨origin, known⟩ := manager_new_has torrent blockSize _
    (new_piece_manager torrent blockSize start began) i less
  obtain ⟨⟨calls, moved, -⟩, -⟩ := client_run profile sha1 _ finish _ _ reached
  have there : (finish.manager.pieceManager.pieces.lookup (UInt32.ofNat i)).isSome = true := by
    rw [run_keys sha1 (setDiskIo start) finish.manager calls _ moved]
    exact Option.isSome_iff_exists.mpr ⟨origin, known⟩
  obtain ⟨piece, found⟩ := Option.isSome_iff_exists.mp there
  obtain ⟨data, wrote, -⟩ := persisted.stored _ piece found
    ((all_values_iff _ _).mp (ended done) _ piece found)
  obtain ⟨stored, read, verified⟩ := client_reads profile sha1 torrent blockSize start began
    storable disk sized finish _ _ taken reached _ data true wrote
  obtain ⟨valid, size⟩ := storable_valid torrent.info storable _ verified.inside
  have hashed := verified.hashed
  obtain ⟨small, bounded⟩ := piece_narrow torrent.info.fileDetails torrent.info.pieceLength
    storable.positive storable.narrow _ valid
  rw [read_piece_slice profile torrent.info.fileDetails torrent.info.pieceLength
    storable.positive finish.disk written.sized _ small bounded valid (storable.narrow _ valid),
    size, pieceStart, word_index i _ less count] at read
  rw [word_index i _ less count, ← Except.ok.inj read] at hashed
  exact hashed

end Entries

section Views

variable (profile : Profile) (sha1 : Bytes → Hash)

abbrev sharedClients : Machine (Client SharedDisk) Call Action :=
  clients (SharedDisk.writePiece profile) sha1

def Client.view (client : Client SharedDisk) : Client DiskIo := ⟨client.manager, client.disk.view⟩

/-- On distinct files a call does what it does on the disk of the entries. -/
theorem perform_view (client : Client SharedDisk) (distinct : client.disk.inodes.Nodup)
    (call : Call) :
    client.view.perform (DiskIo.writePiece profile) sha1 call =
      (client.perform (SharedDisk.writePiece profile) sha1 call).map
        fun performed => (performed.1.view, performed.2) := by
  obtain ⟨manager, disk⟩ := client
  cases call with
  | addPeer | removePeer | setDiskIo => rfl
  | event event peerIp choice =>
      cases event with
      | receivedPiece index begin block =>
          have wrote := write_piece_view profile disk distinct index
          dsimp only at wrote
          change Client.handleRecievePiece (DiskIo.writePiece profile) sha1 ⟨manager, disk.view⟩
            choice index begin.toNat block = _
          simp only [Client.perform, Client.handleRecievePiece]
          by_cases ready : (manager.pieceManager.receiveBlock sha1 index begin.toNat
              block).2 = true ∧ manager.diskIo = true
          · simp only [if_pos ready]
            cases (manager.pieceManager.receiveBlock sha1 index begin.toNat
                block).1.getPieceData index with
            | none => rfl
            | some data =>
                dsimp only
                rw [wrote data]
                cases (disk.writePiece profile index data).2 with
                | ok => rfl
                | error fault => cases fault <;> rfl
          · simp only [if_neg ready]
            rfl
      | receivedBitfield | peerUnchoked | receivedHave | peerDisconnected | peerChoked
      | peerInterested | peerNotInterested | requestedBlock | downloadRate => rfl

theorem perform_inodes (client next : Client SharedDisk) (call : Call) (actions : List Action)
    (performed : client.perform (SharedDisk.writePiece profile) sha1 call = some (next, actions)) :
    next.disk.inodes = client.disk.inodes := by
  cases call with
  | addPeer | removePeer | setDiskIo =>
      cases performed
      rfl
  | event event peerIp choice =>
      cases event with
      | receivedPiece index begin block =>
          have kept := write_piece_inodes profile client.disk index
          simp only [Client.perform, Client.handleRecievePiece] at performed
          split at performed
          · split at performed
            · split at performed
              · cases performed
                exact kept _
              · cases performed
                exact kept _
              · cases performed
              · cases performed
            · cases performed
              rfl
          · cases performed
            rfl
      | receivedBitfield | peerUnchoked | receivedHave | peerDisconnected | peerChoked
      | peerInterested | peerNotInterested | requestedBlock | downloadRate =>
          cases performed
          rfl

theorem perform_lifts (client : Client SharedDisk) (distinct : client.disk.inodes.Nodup)
    (call : Call) (after : Client DiskIo) (actions : List Action)
    (performed : client.view.perform (DiskIo.writePiece profile) sha1 call =
      some (after, actions)) :
    ∃ next, client.perform (SharedDisk.writePiece profile) sha1 call = some (next, actions) ∧
      next.view = after ∧ next.disk.inodes.Nodup := by
  rw [perform_view profile sha1 client distinct] at performed
  obtain ⟨⟨next, told⟩, stepped, same⟩ := Option.map_eq_some_iff.mp performed
  obtain ⟨rfl, rfl⟩ := Prod.mk.inj same
  exact ⟨next, stepped, rfl,
    by rwa [perform_inodes profile sha1 client next call told stepped]⟩

theorem run_lifts (client : Client SharedDisk) (distinct : client.disk.inodes.Nodup)
    (calls : List Call) (after : Client DiskIo) (log : List Action)
    (ran : run (entryClients profile sha1) client.view calls = some (after, log)) :
    ∃ finish, run (sharedClients profile sha1) client calls = some (finish, log) ∧
      finish.view = after ∧ finish.disk.inodes.Nodup := by
  exact run_lifted (entryClients profile sha1) (sharedClients profile sha1) Client.view
    (fun client => client.disk.inodes.Nodup)
    (fun client call after actions apart performed =>
      perform_lifts profile sha1 client apart call after actions performed)
    client calls after log distinct ran

theorem loop_lifts (client : Client SharedDisk) (distinct : client.disk.inodes.Nodup)
    (received : List Received) (after : Client DiskIo) (log : List Action) (returned : Bool)
    (looped : client.view.runLoop (DiskIo.writePiece profile) sha1 received =
      some (after, log, returned)) :
    ∃ finish, client.runLoop (SharedDisk.writePiece profile) sha1 received =
      some (finish, log, returned) ∧ finish.view = after := by
  induction received generalizing client log with
  | nil =>
      cases looped
      exact ⟨client, rfl, rfl⟩
  | cons taken rest ih =>
      have handled : ∀ after actions,
          (match taken with
            | some (event, peerIp, choice) =>
                client.view.perform (DiskIo.writePiece profile) sha1 (.event event peerIp choice)
            | none => some (client.view, [])) = some (after, actions) →
          ∃ next, (match taken with
            | some (event, peerIp, choice) =>
                client.perform (SharedDisk.writePiece profile) sha1 (.event event peerIp choice)
            | none => some (client, [])) = some (next, actions) ∧
            next.view = after ∧ next.disk.inodes.Nodup := by
        cases taken with
        | none =>
            rintro _ _ ⟨⟩
            exact ⟨client, rfl, rfl, distinct⟩
        | some event =>
            exact fun after actions performed =>
              perform_lifts profile sha1 client distinct _ after actions performed
      simp only [Client.runLoop] at looped ⊢
      split at looped
      · cases looped
      · rename_i middle actions stepped
        obtain ⟨next, goes, rfl, apart⟩ := handled middle actions stepped
        rw [goes]
        dsimp only
        have same : next.view.manager = next.manager := rfl
        rw [same] at looped
        split at looped
        · rename_i complete
          cases looped
          exact ⟨next, if_pos complete, rfl⟩
        · rename_i unfinished
          rw [if_neg unfinished]
          split at looped
          · cases looped
          · rename_i last later done tail
            cases looped
            obtain ⟨finish, ends, view⟩ := ih next apart later tail
            exact ⟨finish, by rw [ends], view⟩

end Views

section Files

variable (profile : Profile) (sha1 : Bytes → Hash) (torrent : Torrent) (blockSize : UInt32)
  (start : DownloadManager) (began : DownloadManager.new torrent blockSize = some start)
  (storable : Storable torrent.info) (host : SharedHost) (basePath : LexicalPath.UnixPath)
  (disk : SharedDisk)
  (made : (SharedDisk.new profile host basePath torrent.info.fileDetails
    torrent.info.pieceLength).result = .ok disk)
  (distinct : disk.inodes.Nodup)

include storable made distinct in
theorem opened_sized :
    Sized torrent.info.fileDetails torrent.info.pieceLength disk.view :=
  new_sized profile (host.now host.store) basePath _ _ disk.view
    (Nat.lt_trans (storable_total torrent.info storable) (by decide))
    (new_view profile host basePath _ _ disk made distinct)

include began storable made distinct

end Files

def emptyHost : SharedHost where
  mkdir _ := .created
  opens _ := true
  resizes _ _ := true
  inode _ := 0
  store _ := []

def oneBlockDisk : SharedDisk where
  basePath := ⟨false, [fromStr "d"]⟩
  fileDetails := .singleFile 4
  pieceLength := 4
  inodes := [0]
  store := Function.update (fun _ => []) 0 [0, 0, 0, 0]
  totalSize := 4

theorem one_block_disk_made :
    (SharedDisk.new .checked emptyHost ⟨false, [fromStr "d"]⟩ oneBlock.info.fileDetails
      oneBlock.info.pieceLength).result = .ok oneBlockDisk := by
  rfl

end MotteSeed.DownloadedFiles
