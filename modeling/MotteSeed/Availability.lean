import MotteSeed.Conversation
import MotteSeed.DownloadSafety
import MotteSeed.Toolkit.Bitfield

/-! The two records of what a peer has: the bitfield in the state of its connection and
the one the download manager keeps with its address. Both are compared with what the
peer has told, its last bitfield and the pieces it has announced since. -/
namespace MotteSeed.Availability
open Toolkit Toolkit.HashTable Toolkit.Runs Toolkit.Bitfield PeerWire PeerConnection TorrentMeta
  PieceStore PieceShape Conversation Downloads DownloadSafety

structure Told where
  bitfield : Option Bytes
  haves : List UInt32

def hear (told : Told) : PeerEvent → Told
  | .receivedBitfield bitfield => ⟨some bitfield, []⟩
  | .receivedHave pieceIndex => { told with haves := told.haves ++ [pieceIndex] }
  | _ => told

def toldBy (events : List PeerEvent) : Told := events.foldl hear ⟨none, []⟩

def eventFrom (peerIp : PeerIp) : Call → Option PeerEvent
  | .event event sender _ => if sender = peerIp then some event else none
  | .addPeer _ _ | .removePeer _ | .setDiskIo => none

def eventsFrom (peerIp : PeerIp) (calls : List Call) : List PeerEvent :=
  calls.filterMap (eventFrom peerIp)

def Rejoins (peerIp : PeerIp) : Call → Prop
  | .addPeer other _ | .removePeer other => other = peerIp
  | .event .peerDisconnected other _ => other = peerIp
  | .event _ _ _ | .setDiskIo => False

section Bits

theorem bit_shift (index : UInt32) :
    (7 - index % 8).toUInt8 = UInt8.ofNat (7 - index.toNat % 8) := by
  apply UInt8.toNat_inj.mp
  have small : index.toNat % 8 < 8 := Nat.mod_lt _ (by decide)
  have order : index % 8 ≤ 7 := UInt32.le_iff_toNat_le.mpr (by
    rw [UInt32.toNat_mod]
    exact Nat.le_of_lt_succ small)
  rw [UInt32.toNat_toUInt8, UInt32.toNat_sub_of_le _ _ order, UInt32.toNat_mod,
    UInt8.toNat_ofNat']
  rfl

theorem mem_bitfield_pieces (bitfield : Bytes) (index : UInt32) :
    index ∈ bitfieldPieces bitfield ↔
      ∃ position, bit bitfield position = true ∧ UInt32.ofNat position = index := by
  simp only [bitfieldPieces, List.mem_flatMap, List.mem_filterMap, List.mem_range, Prod.exists,
    List.mk_mem_zipIdx_iff_getElem?]
  constructor
  · rintro ⟨byte, byteIndex, found, bitIndex, small, chosen⟩
    split at chosen
    · rename_i held
      refine ⟨byteIndex * 8 + bitIndex, ?_, Option.some.inj chosen⟩
      have row : (byteIndex * 8 + bitIndex) / 8 = byteIndex := by omega
      have column : (byteIndex * 8 + bitIndex) % 8 = bitIndex := by omega
      simp only [bit, row, column, found]
      exact (and_single_bit byte (7 - bitIndex) (by omega)).mp held
    · cases chosen
  · rintro ⟨position, held, rfl⟩
    unfold bit at held
    split at held
    · rename_i byte found
      refine ⟨byte, position / 8, found, position % 8, Nat.mod_lt _ (by decide), ?_⟩
      rw [if_pos ((and_single_bit byte _ (by omega)).mpr held), Nat.div_add_mod']
    · cases held

theorem mark_available_eq (pieceIndex : UInt32) (bitfield : Bytes) :
    markAvailable pieceIndex bitfield =
      if pieceIndex.toNat / 8 < bitfield.length % 2 ^ 32 then mark bitfield pieceIndex.toNat
      else bitfield := by
  simp only [markAvailable, bit_shift, UInt32.lt_iff_toNat_lt, UInt32.toNat_div,
    UInt32.toNat_ofNat']
  rfl

theorem has_piece_iff (state : PeerState) (index : UInt32) :
    state.hasPiece index = true ↔
      ∃ bitfield, state.bitfield = some bitfield ∧ bit bitfield index.toNat = true := by
  unfold PeerState.hasPiece bit
  cases state.bitfield with
  | none => simp
  | some bitfield =>
      simp only [Option.some.injEq, exists_eq_left', UInt32.toNat_div, UInt32.reduceToNat,
        bit_shift]
      cases bitfield[index.toNat / 8]? with
      | none => rfl
      | some byte =>
          simp only [decide_eq_true_eq]
          exact and_single_bit byte _ (by omega)

/-- The record the manager keeps: the last bitfield, with the announced pieces marked. -/
def recorded (told : Told) : Option Bytes :=
  told.bitfield.map fun bitfield =>
    told.haves.foldl (fun bytes index => markAvailable index bytes) bitfield

theorem mark_available_all (haves : List UInt32) (bitfield : Bytes) :
    haves.foldl (fun bytes index => markAvailable index bytes) bitfield =
      ((haves.map UInt32.toNat).filter fun position =>
        position / 8 < bitfield.length % 2 ^ 32).foldl mark bitfield := by
  induction haves generalizing bitfield with
  | nil => rfl
  | cons index rest ih =>
      rw [List.foldl_cons, ih, mark_available_eq, List.map_cons, List.filter_cons]
      by_cases inside : index.toNat / 8 < bitfield.length % 2 ^ 32
      · simp only [if_pos inside, mark_length, decide_eq_true inside, if_true, List.foldl_cons]
      · simp only [if_neg inside, decide_eq_false inside, Bool.false_eq_true, if_false]

theorem bit_recorded (bitfield : Bytes) (haves : List UInt32) (position : Nat) :
    bit (haves.foldl (fun bytes index => markAvailable index bytes) bitfield) position = true ↔
      bit bitfield position = true ∨
        (position ∈ haves.map UInt32.toNat ∧ position / 8 < bitfield.length % 2 ^ 32) := by
  rw [mark_available_all, bit_mark_all, List.mem_filter, decide_eq_true_iff]
  have bound := Nat.mod_le bitfield.length (2 ^ 32)
  constructor
  · rintro (held | ⟨announced, -⟩)
    · exact Or.inl held
    · exact Or.inr announced
  · rintro (held | ⟨announced, inside⟩)
    · exact Or.inl held
    · exact Or.inr ⟨⟨announced, inside⟩, by omega⟩

end Bits

section Records

variable (sha1 : Bytes → Hash)

def peersAfter (peers : Peers) (event : PeerEvent) (peerIp : PeerIp) : Peers :=
  match event with
  | .receivedBitfield bitfield => modify peers peerIp fun peer => (peer.1, some bitfield)
  | .receivedHave pieceIndex =>
      modify peers peerIp fun peer => (peer.1, peer.2.map (markAvailable pieceIndex))
  | .peerDisconnected => peers.erase peerIp
  | _ => peers

@[simp] theorem peers_after_bitfield (peers : Peers) (bitfield : Bytes) (peerIp : PeerIp) :
    peersAfter peers (.receivedBitfield bitfield) peerIp =
      modify peers peerIp fun peer => (peer.1, some bitfield) := rfl

@[simp] theorem peers_after_have (peers : Peers) (pieceIndex : UInt32) (peerIp : PeerIp) :
    peersAfter peers (.receivedHave pieceIndex) peerIp =
      modify peers peerIp fun peer => (peer.1, peer.2.map (markAvailable pieceIndex)) := rfl

@[simp] theorem peers_after_disconnect (peers : Peers) (peerIp : PeerIp) :
    peersAfter peers .peerDisconnected peerIp = peers.erase peerIp := rfl

theorem peers_after_other (peers : Peers) (event : PeerEvent) (peerIp other : PeerIp)
    (different : other ≠ peerIp) :
    (peersAfter peers event peerIp).lookup other = peers.lookup other := by
  cases event with
  | receivedBitfield | receivedHave => exact lookup_modify_ne _ _ _ _ different
  | peerDisconnected => exact AList.lookup_erase_ne different
  | peerChoked | peerUnchoked | peerInterested | peerNotInterested | requestedBlock
  | receivedPiece | downloadRate => rfl

theorem peers_after_sender (peers : Peers) (event : PeerEvent) (peerIp other : PeerIp)
    (stays : event = .peerDisconnected → other ≠ peerIp) :
    ((peersAfter peers event peerIp).lookup other).map Prod.fst =
      (peers.lookup other).map Prod.fst := by
  by_cases same : other = peerIp
  · subst same
    cases event with
    | receivedBitfield | receivedHave =>
        simp only [peers_after_bitfield, peers_after_have, lookup_modify_self, Option.map_map]
        rfl
    | peerDisconnected => exact (stays rfl rfl).elim
    | peerChoked | peerUnchoked | peerInterested | peerNotInterested | requestedBlock
    | receivedPiece | downloadRate => rfl
  · rw [peers_after_other peers event peerIp other same]

theorem unchoke_peers (choice : Choice) (manager : DownloadManager) (peerIp : PeerIp) :
    (handleUnchoke choice manager peerIp).1.peers = manager.peers := by
  rcases unchoke_cases choice manager peerIp with
    ⟨idle, -⟩ | ⟨index, piece, offset, block, -, -, -, -, -, -, asked⟩
  · rw [idle]
  · rw [asked]
    rfl

theorem recieved_peers (choice : Choice) (manager after : DownloadManager) (index : UInt32)
    (begin : Nat) (block : Bytes) (actions : List Action)
    (handled : Recieved sha1 choice manager index begin block after actions) :
    after.peers = manager.peers := by
  cases handled <;> rfl

theorem handle_event_peers (choice : Choice) (manager : DownloadManager) (event : PeerEvent)
    (peerIp : PeerIp) :
    (handleEvent sha1 choice manager event peerIp).1.peers =
      peersAfter manager.peers event peerIp := by
  cases event with
  | receivedBitfield bitfield =>
      simp only [handle_event_bitfield, handleBitfield]
      split <;> rfl
  | peerUnchoked => exact unchoke_peers choice manager peerIp
  | receivedPiece index begin block =>
      exact recieved_peers sha1 choice manager _ index begin.toNat block _
        (handle_recieved sha1 choice manager index begin.toNat block)
  | receivedHave | peerDisconnected | peerChoked | peerInterested | peerNotInterested
  | requestedBlock | downloadRate => rfl

theorem recorded_bitfield (told : Told) (bitfield : Bytes) :
    recorded (hear told (.receivedBitfield bitfield)) = some bitfield := rfl

theorem recorded_have (told : Told) (index : UInt32) :
    recorded (hear told (.receivedHave index)) = (recorded told).map (markAvailable index) := by
  simp only [recorded, hear, Option.map_map]
  congr 1
  funext bitfield
  exact List.foldl_concat _ _ _ _

/-- A call that does not concern the registration of an address leaves its sender, and
makes its record follow what the address tells. -/
theorem perform_record (peerIp : PeerIp) (sender : Sender) (told : Told)
    (manager : DownloadManager) (call : Call) (stays : ¬ Rejoins peerIp call)
    (present : manager.peers.lookup peerIp = some (sender, recorded told)) :
    (perform sha1 manager call).1.peers.lookup peerIp =
      some (sender, recorded ((eventFrom peerIp call).toList.foldl hear told)) := by
  cases call with
  | setDiskIo => exact present
  | addPeer other otherSender =>
      exact (AList.lookup_insert_ne (Ne.symm stays)).trans present
  | removePeer other =>
      exact (AList.lookup_erase_ne (Ne.symm stays)).trans present
  | event event other choice =>
      simp only [perform, handle_event_peers, eventFrom]
      by_cases same : other = peerIp
      · subst same
        rw [if_pos rfl]
        cases event with
        | receivedBitfield bitfield =>
            simp [lookup_modify_self, present, recorded_bitfield]
        | receivedHave index =>
            simp [lookup_modify_self, present, recorded_have]
        | peerDisconnected => exact (stays rfl).elim
        | peerChoked | peerUnchoked | peerInterested | peerNotInterested | requestedBlock
        | receivedPiece | downloadRate => exact present
      · rw [if_neg same]
        exact (peers_after_other _ event other peerIp (Ne.symm same)).trans present

theorem run_record (peerIp : PeerIp) (sender : Sender) (manager finish : DownloadManager)
    (calls : List Call) (log : List Action) (stays : ∀ call ∈ calls, ¬ Rejoins peerIp call)
    (ran : run (downloads sha1) (addPeer manager peerIp sender) calls = some (finish, log)) :
    finish.peers.lookup peerIp = some (sender, recorded (toldBy (eventsFrom peerIp calls))) := by
  refine run_performed sha1 (addPeer manager peerIp sender) calls
    (fun past state _ =>
      state.peers.lookup peerIp = some (sender, recorded (toldBy (eventsFrom peerIp past))))
    (AList.lookup_insert _) ?_ calls (List.prefix_refl calls) finish log ran
  intro past call state _ began _ present
  have here : call ∈ calls :=
    began.subset (List.mem_append_right past List.mem_cons_self)
  rw [perform_record sha1 peerIp sender _ state call (stays call here) present]
  have grown : eventsFrom peerIp (past ++ [call]) =
      eventsFrom peerIp past ++ (eventFrom peerIp call).toList := by
    simp only [eventsFrom, List.filterMap_append, List.filterMap_cons, List.filterMap_nil]
    cases eventFrom peerIp call <;> rfl
  rw [toldBy, toldBy, grown, List.foldl_append]

theorem available_told (manager : DownloadManager) (peerIp : PeerIp) (sender : Sender)
    (told : Told) (present : manager.peers.lookup peerIp = some (sender, recorded told))
    (index : UInt32) :
    index ∈ getPeerAvailablePieces manager peerIp ↔
      ∃ bitfield, told.bitfield = some bitfield ∧ ∃ position, UInt32.ofNat position = index ∧
        (bit bitfield position = true ∨ (position ∈ told.haves.map UInt32.toNat ∧
          position / 8 < bitfield.length % 2 ^ 32)) := by
  simp only [getPeerAvailablePieces, present, recorded]
  cases told.bitfield with
  | none => simp
  | some bitfield =>
      simp only [Option.map_some, mem_bitfield_pieces, bit_recorded, Option.some.injEq,
        exists_eq_left']
      exact exists_congr fun position => and_comm

theorem told_bitfield_heard (events : List PeerEvent) (bitfield : Bytes)
    (last : (toldBy events).bitfield = some bitfield) : .receivedBitfield bitfield ∈ events := by
  induction events using List.reverseRecOn with
  | nil => cases last
  | append_singleton past event ih =>
      rw [toldBy, List.foldl_concat] at last
      cases event with
      | receivedBitfield bytes =>
          obtain rfl := Option.some.inj last
          exact List.mem_append_right past List.mem_cons_self
      | receivedHave | peerChoked | peerUnchoked | peerInterested | peerNotInterested
      | requestedBlock | receivedPiece | peerDisconnected | downloadRate =>
          exact List.mem_append_left _ (ih last)

/-- The last bitfield has the piece, or it was announced since. -/
def Announced (told : Told) (index : UInt32) : Prop :=
  (∃ bitfield, told.bitfield = some bitfield ∧ bit bitfield index.toNat = true) ∨
    index ∈ told.haves

/-- A piece is available exactly when it was announced and the last bitfield has room for
it. -/
theorem available_iff_announced (manager finish : DownloadManager) (peerIp : PeerIp)
    (sender : Sender) (calls : List Call) (log : List Action)
    (stays : ∀ call ∈ calls, ¬ Rejoins peerIp call)
    (short : ∀ bitfield, .receivedBitfield bitfield ∈ eventsFrom peerIp calls →
      bitfield.length < 2 ^ 29)
    (ran : run (downloads sha1) (addPeer manager peerIp sender) calls = some (finish, log))
    (index : UInt32) :
    index ∈ getPeerAvailablePieces finish peerIp ↔
      Announced (toldBy (eventsFrom peerIp calls)) index ∧
        ∃ bitfield, (toldBy (eventsFrom peerIp calls)).bitfield = some bitfield ∧
          index.toNat < 8 * bitfield.length := by
  have present := run_record sha1 peerIp sender manager finish calls log stays ran
  rw [available_told finish peerIp sender _ present index]
  cases last : (toldBy (eventsFrom peerIp calls)).bitfield with
  | none => simp
  | some bitfield =>
      have narrow := short bitfield (told_bitfield_heard _ bitfield last)
      have whole : bitfield.length % 2 ^ 32 = bitfield.length := Nat.mod_eq_of_lt (by omega)
      simp only [Announced, last, Option.some.injEq, exists_eq_left', whole]
      constructor
      · rintro ⟨position, rfl, held | ⟨member, inside⟩⟩
        · have room := bit_inside bitfield position held
          rw [UInt32.toNat_ofNat', Nat.mod_eq_of_lt (by omega)]
          exact ⟨Or.inl held, room⟩
        · obtain ⟨index, announced, rfl⟩ := List.mem_map.mp member
          rw [UInt32.ofNat_toNat]
          exact ⟨Or.inr announced, by omega⟩
      · rintro ⟨held | announced, room⟩
        · exact ⟨index.toNat, UInt32.ofNat_toNat, Or.inl held⟩
        · exact ⟨index.toNat, UInt32.ofNat_toNat,
            Or.inr ⟨List.mem_map_of_mem announced, by omega⟩⟩

def oneBlockManager : DownloadManager := (DownloadManager.new oneBlock 4).get (by decide)

def tellFirst (bitfield : Bytes) : List Call :=
  [.event (.receivedBitfield bitfield) default default, .event (.receivedHave 0) default default]

theorem available_iff_announced_first :
    0 ∈ getPeerAvailablePieces (handleHave (handleBitfield default
        (addPeer oneBlockManager default 0) default [0]).1 default 0) default ↔
      Announced (toldBy (eventsFrom default (tellFirst [0]))) 0 ∧
        ∃ bitfield, (toldBy (eventsFrom default (tellFirst [0]))).bitfield = some bitfield ∧
          (0 : UInt32).toNat < 8 * bitfield.length :=
  available_iff_announced zeroHash oneBlockManager _ default 0 (tellFirst [0]) []
    (by simp [tellFirst, Rejoins]) (by simp [tellFirst, eventsFrom, eventFrom]) rfl 0

/-- A piece announced before any bitfield is not available. -/
theorem early_have_not_available :
    ∃ finish log, run (downloads zeroHash) (addPeer oneBlockManager default 0)
        [.event (.receivedHave 0) default default] = some (finish, log) ∧
      0 < hashCount oneBlock.info ∧
      ¬ (0 ∈ getPeerAvailablePieces finish default ↔
        Announced (toldBy (eventsFrom default [.event (.receivedHave 0) default default])) 0) := by
  refine ⟨_, _, rfl, by decide, fun agree => ?_⟩
  have available := agree.mpr (Or.inr (by decide))
  revert available
  decide

theorem connection_record (talks : List Talk) (state : PeerState) (events : List PeerEvent)
    (conversed : run converse (PeerState.new none) talks = some (state, events)) :
    state.bitfield = (toldBy events).bitfield := by
  refine run_invariant converse
    (fun state events => state.bitfield = (toldBy events).bitfield) ?_
    (PeerState.new none) state talks events rfl conversed
  intro before events next after emitted same stepped
  obtain ⟨rfl, rfl⟩ := Prod.mk.inj (Option.some.inj stepped)
  rw [toldBy, List.foldl_append, ← toldBy]
  cases next with
  | commanded command => exact same
  | received message => cases message <;> first | exact same | rfl

/-- The two records of a peer agree exactly when no piece that the last bitfield lacks but
could hold was announced since, and no bit of it lies past the indices. -/
theorem records_agree_iff (manager finish : DownloadManager) (peerIp : PeerIp) (sender : Sender)
    (talks : List Talk) (state : PeerState) (events : List PeerEvent) (calls : List Call)
    (log : List Action) (conversed : run converse (PeerState.new none) talks = some (state, events))
    (forwarded : eventsFrom peerIp calls = events)
    (stays : ∀ call ∈ calls, ¬ Rejoins peerIp call)
    (ran : run (downloads sha1) (addPeer manager peerIp sender) calls = some (finish, log)) :
    (∀ index, state.hasPiece index = true ↔ index ∈ getPeerAvailablePieces finish peerIp) ↔
      ∀ bitfield, (toldBy (eventsFrom peerIp calls)).bitfield = some bitfield →
        (∀ index ∈ (toldBy (eventsFrom peerIp calls)).haves,
          index.toNat / 8 < bitfield.length % 2 ^ 32 → bit bitfield index.toNat = true) ∧
        ∀ position, bit bitfield position = true → bit bitfield (position % 2 ^ 32) = true := by
  have present := run_record sha1 peerIp sender manager finish calls log stays ran
  have known := connection_record talks state events conversed
  rw [← forwarded] at known
  simp only [has_piece_iff, available_told finish peerIp sender _ present, known]
  cases (toldBy (eventsFrom peerIp calls)).bitfield with
  | none => simp
  | some bitfield =>
      simp only [Option.some.injEq, exists_eq_left', forall_eq']
      constructor
      · intro agree
        constructor
        · intro index announced inside
          exact (agree index).mpr ⟨index.toNat, UInt32.ofNat_toNat,
            Or.inr ⟨List.mem_map_of_mem announced, inside⟩⟩
        · intro position held
          have wrapped := (agree (UInt32.ofNat position)).mpr ⟨position, rfl, Or.inl held⟩
          rwa [UInt32.toNat_ofNat'] at wrapped
      · rintro ⟨marked, folded⟩ index
        constructor
        · intro held
          exact ⟨index.toNat, UInt32.ofNat_toNat, Or.inl held⟩
        · rintro ⟨position, rfl, held | ⟨member, inside⟩⟩
          · rw [UInt32.toNat_ofNat']
            exact folded position held
          · obtain ⟨index, announced, rfl⟩ := List.mem_map.mp member
            rw [UInt32.ofNat_toNat]
            exact marked index announced inside

theorem records_agree_first :
    (∀ index, { PeerState.new none with bitfield := some [128] }.hasPiece index = true ↔
        index ∈ getPeerAvailablePieces (handleHave (handleBitfield default
          (addPeer oneBlockManager default 0) default [128]).1 default 0) default) ↔
      ∀ bitfield, (toldBy (eventsFrom default (tellFirst [128]))).bitfield = some bitfield →
        (∀ index ∈ (toldBy (eventsFrom default (tellFirst [128]))).haves,
          index.toNat / 8 < bitfield.length % 2 ^ 32 → bit bitfield index.toNat = true) ∧
        ∀ position, bit bitfield position = true → bit bitfield (position % 2 ^ 32) = true :=
  records_agree_iff zeroHash oneBlockManager _ default 0
    [.received (.bitfield [128]), .received (.havePiece 0)] _
    [.receivedBitfield [128], .receivedHave 0] (tellFirst [128])
    [sendCommand default 0 .interested] rfl rfl (by simp [tellFirst, Rejoins]) rfl

/-- An empty bitfield and then the first piece: the manager marks it, the connection does
not. -/
theorem have_splits_records :
    ∃ state finish log, run converse (PeerState.new none)
        [.received (.bitfield [0]), .received (.havePiece 0)] =
          some (state, eventsFrom default (tellFirst [0])) ∧
      run (downloads zeroHash) (addPeer oneBlockManager default 0) (tellFirst [0]) =
        some (finish, log) ∧
      ¬ ∀ index, state.hasPiece index = true ↔ index ∈ getPeerAvailablePieces finish default := by
  refine ⟨_, _, _, rfl, rfl, fun agree => ?_⟩
  have held := (agree 0).mpr (by decide)
  revert held
  decide

end Records

end MotteSeed.Availability
