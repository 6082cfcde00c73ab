import MotteSeed.Unchoke

/-! Who has been told that we are interested. Only a bitfield makes the manager say so,
but a peer can come to offer a needed piece in two other ways: it announces the piece
later, or a complete piece is lost again. -/
namespace MotteSeed.Interest
open Toolkit Toolkit.HashTable Toolkit.Runs Toolkit.Bitfield PeerWire PeerConnection TorrentMeta
  PieceStore PieceShape PieceInvariant Downloads DownloadSafety Availability Requests PieceStates
  Unchoke

variable (sha1 : Bytes → Hash)

section Sends

theorem available_iff (manager : DownloadManager) (peerIp : PeerIp) (index : UInt32) :
    index ∈ getPeerAvailablePieces manager peerIp ↔
      ∃ sender bitfield, manager.peers.lookup peerIp = some (sender, some bitfield) ∧
        index ∈ bitfieldPieces bitfield := by
  unfold getPeerAvailablePieces
  cases present : manager.peers.lookup peerIp with
  | none => simp
  | some peer =>
      obtain ⟨sender, record⟩ := peer
      cases record <;> simp

theorem has_needed_iff (manager : DownloadManager) (peerIp : PeerIp) :
    peerHasNeededPieces manager peerIp = true ↔
      ∃ index ∈ getPeerAvailablePieces manager peerIp, Needed manager.pieceManager index := by
  rw [peerHasNeededPieces, Option.isSome_iff_exists]
  constructor
  · rintro ⟨index, next⟩
    rw [next_piece_eq] at next
    exact ⟨index, List.mem_of_find?_eq_some next,
      (is_needed_iff _ index).mp (List.find?_some next)⟩
  · rintro ⟨index, member, needed⟩
    exact next_piece_isSome _ _ index member needed

def withBitfield (manager : DownloadManager) (peerIp : PeerIp) (bitfield : Bytes) :
    DownloadManager :=
  { manager with peers := modify manager.peers peerIp fun peer => (peer.1, some bitfield) }

theorem handle_bitfield_eq (choice : Choice) (manager : DownloadManager) (peerIp : PeerIp)
    (bitfield : Bytes) :
    handleBitfield choice manager peerIp bitfield =
      if peerHasNeededPieces (withBitfield manager peerIp bitfield) peerIp then
        (withBitfield manager peerIp bitfield,
          sendToPeer choice (withBitfield manager peerIp bitfield) peerIp .interested)
      else (withBitfield manager peerIp bitfield, []) := rfl

theorem handle_bitfield_manager (choice : Choice) (manager : DownloadManager) (peerIp : PeerIp)
    (bitfield : Bytes) :
    (handleBitfield choice manager peerIp bitfield).1 = withBitfield manager peerIp bitfield := by
  rw [handle_bitfield_eq]
  split <;> rfl

theorem with_bitfield_found (manager : DownloadManager) (peerIp : PeerIp) (bitfield : Bytes)
    (sender : Sender) (record : Option Bytes)
    (present : manager.peers.lookup peerIp = some (sender, record)) :
    (withBitfield manager peerIp bitfield).peers.lookup peerIp =
      some (sender, some bitfield) := by
  rw [withBitfield, lookup_modify_self, present, Option.map_some]

theorem with_bitfield_needed (manager : DownloadManager) (peerIp : PeerIp) (bitfield : Bytes)
    (sender : Sender) (record : Option Bytes)
    (present : manager.peers.lookup peerIp = some (sender, record)) :
    peerHasNeededPieces (withBitfield manager peerIp bitfield) peerIp = true ↔
      ∃ index ∈ bitfieldPieces bitfield, Needed manager.pieceManager index := by
  have stored := with_bitfield_found manager peerIp bitfield sender record present
  rw [has_needed_iff, available_pieces_stored _ peerIp sender bitfield stored]
  rfl

theorem bitfield_interested_iff (choice : Choice) (manager : DownloadManager) (peerIp : PeerIp)
    (bitfield : Bytes) (action : Action) :
    action ∈ (handleBitfield choice manager peerIp bitfield).2 ↔
      ∃ sender index, (manager.peers.lookup peerIp).map Prod.fst = some sender ∧
        index ∈ bitfieldPieces bitfield ∧ Needed manager.pieceManager index ∧
        action = .sent sender .interested (choice.connected sender) := by
  cases present : manager.peers.lookup peerIp with
  | none =>
      simp [handleBitfield, peerHasNeededPieces, getPeerAvailablePieces, lookup_modify_self,
        present, sendToPeer]
  | some peer =>
      obtain ⟨sender, record⟩ := peer
      have wants := with_bitfield_needed manager peerIp bitfield sender record present
      rw [handle_bitfield_eq]
      by_cases needs : peerHasNeededPieces (withBitfield manager peerIp bitfield) peerIp = true
      · obtain ⟨index, member, needed⟩ := wants.mp needs
        simp only [if_pos needs, sendToPeer,
          with_bitfield_found manager peerIp bitfield sender record present, List.mem_singleton]
        constructor
        · intro same
          exact ⟨sender, index, rfl, member, needed, same⟩
        · rintro ⟨other, -, known, -, -, same⟩
          obtain rfl := Option.some.inj known
          exact same
      · rw [if_neg needs]
        constructor
        · intro member
          cases member
        · rintro ⟨-, index, -, member, needed, -⟩
          exact absurd (wants.mpr ⟨index, member, needed⟩) needs

/-- A bitfield of a peer on this channel has a needed piece. Which sends count is open: all
of them, or those that the channel takes. -/
def Asks (counts : Bool → Prop) (manager : DownloadManager) (sender : Sender) (call : Call) :
    Prop :=
  ∃ bitfield peerIp choice index, call = .event (.receivedBitfield bitfield) peerIp choice ∧
    (manager.peers.lookup peerIp).map Prod.fst = some sender ∧
    index ∈ bitfieldPieces bitfield ∧ Needed manager.pieceManager index ∧
    counts (choice.connected sender)

theorem event_interested (choice : Choice) (manager : DownloadManager) (event : PeerEvent)
    (peerIp : PeerIp) (other : ∀ bitfield, event ≠ .receivedBitfield bitfield)
    (sender : Sender) (delivered : Bool) :
    .sent sender .interested delivered ∉
      (handleEvent sha1 choice manager event peerIp).2 := by
  cases event with
  | receivedBitfield bitfield => exact absurd rfl (other bitfield)
  | peerUnchoked =>
      rw [handle_event_unchoked]
      rcases unchoke_cases choice manager peerIp with
        ⟨idle, -⟩ | ⟨index, piece, offset, block, -, -, -, -, -, -, asked⟩
      · simp [idle]
      · rw [asked]
        intro member
        obtain ⟨_, _, same⟩ := send_to_peer_mem choice _ peerIp _ _ member
        cases same
  | receivedPiece index begin data =>
      intro member
      cases recieved_sends sha1 choice manager _ index begin.toNat data _
        (handle_recieved sha1 choice manager index begin.toNat data) sender _ delivered member
  | receivedHave | peerDisconnected | peerChoked | peerInterested | peerNotInterested
  | requestedBlock | downloadRate => exact List.not_mem_nil

theorem perform_interested_iff (counts : Bool → Prop) (manager : DownloadManager) (call : Call)
    (sender : Sender) :
    (∃ delivered, .sent sender .interested delivered ∈ (perform sha1 manager call).2 ∧
      counts delivered) ↔ Asks counts manager sender call := by
  cases call with
  | addPeer | removePeer | setDiskIo => simp [perform, Asks]
  | event event peerIp choice =>
      by_cases bits : ∃ bitfield, event = .receivedBitfield bitfield
      · obtain ⟨bitfield, rfl⟩ := bits
        simp only [perform, handle_event_bitfield, bitfield_interested_iff]
        constructor
        · rintro ⟨delivered, ⟨other, index, known, member, needed, same⟩, fine⟩
          obtain ⟨rfl, -, rfl⟩ := Action.sent.inj same
          exact ⟨bitfield, peerIp, choice, index, rfl, known, member, needed, fine⟩
        · rintro ⟨_, _, _, index, same, known, member, needed, fine⟩
          cases same
          exact ⟨_, ⟨sender, index, known, member, needed, rfl⟩, fine⟩
      · constructor
        · rintro ⟨delivered, member, -⟩
          refine absurd member (event_interested sha1 choice manager event peerIp ?_ _ _)
          exact fun bitfield same => bits ⟨bitfield, same⟩
        · rintro ⟨bitfield, _, _, _, same, -⟩
          cases same
          exact absurd ⟨bitfield, rfl⟩ bits

end Sends

section Offers

theorem mem_mark_available (pieceIndex index : UInt32) (bitfield : Bytes) :
    index ∈ bitfieldPieces (markAvailable pieceIndex bitfield) ↔
      index ∈ bitfieldPieces bitfield ∨
        (index = pieceIndex ∧ pieceIndex / 8 < UInt32.ofNat bitfield.length) := by
  have inside : pieceIndex / 8 < UInt32.ofNat bitfield.length ↔
      pieceIndex.toNat / 8 < bitfield.length % 2 ^ 32 := by
    rw [UInt32.lt_iff_toNat_lt, UInt32.toNat_div, UInt32.toNat_ofNat']
    rfl
  have bound := Nat.mod_le bitfield.length (2 ^ 32)
  rw [mark_available_eq, inside]
  by_cases room : pieceIndex.toNat / 8 < bitfield.length % 2 ^ 32
  · simp only [if_pos room, mem_bitfield_pieces, bit_mark]
    constructor
    · rintro ⟨position, held | ⟨rfl, -⟩, rfl⟩
      · exact Or.inl ⟨position, held, rfl⟩
      · exact Or.inr ⟨UInt32.ofNat_toNat, room⟩
    · rintro (⟨position, held, same⟩ | ⟨rfl, -⟩)
      · exact ⟨position, Or.inl held, same⟩
      · exact ⟨index.toNat, Or.inr ⟨rfl, by omega⟩, UInt32.ofNat_toNat⟩
  · rw [if_neg room]
    exact ⟨Or.inl, fun either => either.resolve_right fun both => room both.2⟩

def Loses (manager : DownloadManager) (index begin : UInt32) (data : Bytes) : Prop :=
  ∃ piece, manager.pieceManager.pieces.lookup index = some piece ∧ piece.isComplete = true ∧
    FailsPiece sha1 (.receivedPiece index begin data) index piece

/-- The ways in which a call makes a peer offer a needed piece: its bitfield has the piece,
it announces the piece, or a complete piece that it has fails its check. -/
inductive Offered (manager : DownloadManager) (peerIp : PeerIp) (index : UInt32) : Call → Prop where
  | told (bitfield : Bytes) (choice : Choice)
      (registered : (manager.peers.lookup peerIp).isSome)
      (member : index ∈ bitfieldPieces bitfield) (needed : Needed manager.pieceManager index) :
      Offered manager peerIp index (.event (.receivedBitfield bitfield) peerIp choice)
  | announced (choice : Choice) (sender : Sender) (bitfield : Bytes)
      (present : manager.peers.lookup peerIp = some (sender, some bitfield))
      (room : index / 8 < UInt32.ofNat bitfield.length)
      (needed : Needed manager.pieceManager index) :
      Offered manager peerIp index (.event (.receivedHave index) peerIp choice)
  | lost (begin : UInt32) (data : Bytes) (giver : PeerIp) (choice : Choice)
      (loses : Loses sha1 manager index begin data)
      (available : index ∈ getPeerAvailablePieces manager peerIp) :
      Offered manager peerIp index (.event (.receivedPiece index begin data) giver choice)

/-- A block that arrives makes no piece needed, unless it makes the piece fail. -/
theorem recieved_needed (choice : Choice) (manager after : DownloadManager) (index : UInt32)
    (begin : UInt32) (data : Bytes) (actions : List Action)
    (sound : ∀ key piece, manager.pieceManager.pieces.lookup key = some piece → Sound sha1 piece)
    (handled : Recieved sha1 choice manager index begin.toNat data after actions) (key : UInt32)
    (needed : Needed after.pieceManager key) :
    Needed manager.pieceManager key ∨ (key = index ∧ Loses sha1 manager index begin data) := by
  have stored : Needed (withBlock sha1 manager index begin.toNat data).pieceManager key →
      Needed manager.pieceManager key ∨ (key = index ∧ Loses sha1 manager index begin data) := by
    rintro ⟨changed, present, lacks⟩
    rcases lookup_modify_some _ _ _ _ _ present with ⟨rfl, old, held, rfl⟩ | ⟨-, same⟩
    · cases before : old.isComplete with
      | false => exact Or.inl ⟨old, held, before⟩
      | true =>
          refine Or.inr ⟨rfl, old, held, before, begin, data, rfl, ?_⟩
          have tiled := tiled_same_shape _ _ (sound key old held).tiled
            (with_data_same_shape old begin.toNat data)
          have delivered := receive_block_delivered sha1 old (sound key old held) begin.toNat data
          generalize (old.receiveBlock sha1 begin.toNat data).1 = taken at delivered lacks
          cases delivered with
          | unknown | partly =>
              have same : old.isComplete = false := lacks
              rw [before] at same
              cases same
          | verified => cases lacks
          | rejected _ _ bytes ended differs =>
              exact ⟨(hashed_data_iff _ tiled).mp ⟨bytes, ended⟩, bytes, ended, differs⟩
    · exact Or.inl ⟨changed, same, lacks⟩
  cases handled with
  | unknown => exact Or.inl needed
  | kept | failed => exact stored needed
  | wrote =>
      obtain ⟨changed, present, lacks⟩ := needed
      rcases lookup_modify_some _ _ _ _ _ present with ⟨-, old, -, rfl⟩ | ⟨-, same⟩
      · cases lacks
      · exact stored ⟨changed, same, lacks⟩

theorem perform_needed (manager : DownloadManager) (call : Call)
    (sound : ∀ key piece, manager.pieceManager.pieces.lookup key = some piece → Sound sha1 piece)
    (index : UInt32) (needed : Needed (perform sha1 manager call).1.pieceManager index) :
    Needed manager.pieceManager index ∨ ∃ begin data giver choice,
      call = .event (.receivedPiece index begin data) giver choice ∧
        Loses sha1 manager index begin data := by
  have step := perform_step sha1 manager call
  generalize perform sha1 manager call = done at step needed
  obtain ⟨after, actions⟩ := done
  cases step with
  | quiet _ _ _ same =>
      left
      rwa [← show after.pieceManager = manager.pieceManager from same]
  | requested =>
      left
      obtain ⟨changed, present, lacks⟩ := needed
      rcases lookup_modify_some _ _ _ _ _ present with ⟨rfl, old, held, rfl⟩ | ⟨-, same⟩
      · exact ⟨old, held, lacks⟩
      · exact ⟨changed, same, lacks⟩
  | recieved giver key begin data choice _ _ handled =>
      rcases recieved_needed sha1 choice manager after key begin data actions sound handled index
        needed with older | ⟨rfl, loses⟩
      · exact Or.inl older
      · exact Or.inr ⟨begin, data, giver, choice, rfl, loses⟩

theorem fails_incomplete (piece : Piece) (index begin : UInt32) (data : Bytes)
    (sound : Sound sha1 piece) (complete : piece.isComplete = true)
    (fails : FailsPiece sha1 (.receivedPiece index begin data) index piece) :
    (piece.receiveBlock sha1 begin.toNat data).1.isComplete = false := by
  obtain ⟨place, given, same, all, bytes, ended, differs⟩ := fails
  obtain ⟨-, rfl, rfl⟩ := PeerEvent.receivedPiece.inj same
  have delivered := receive_block_delivered sha1 piece sound begin.toNat data
  generalize (piece.receiveBlock sha1 begin.toNat data).1 = taken at delivered ⊢
  cases delivered with
  | unknown absent =>
      -- Data for no block leaves the bytes that have passed the check.
      have idle : withData piece begin.toNat data = piece := by
        rw [withData, modify_self]
        intro block present
        rw [absent] at present
        cases present
      obtain ⟨passed, whole, matches_hash⟩ := sound.verified complete
      rw [idle, whole] at ended
      obtain rfl := Gathered.data.inj ended
      exact absurd matches_hash differs
  | partly _ _ lacking => exact absurd all lacking
  | verified _ _ other whole matches_hash =>
      obtain rfl := Gathered.data.inj (whole.symm.trans ended)
      exact absurd matches_hash differs
  | rejected => rfl

theorem loses_needed (manager : DownloadManager) (index begin : UInt32) (data : Bytes)
    (giver : PeerIp) (choice : Choice)
    (sound : ∀ key piece, manager.pieceManager.pieces.lookup key = some piece → Sound sha1 piece)
    (loses : Loses sha1 manager index begin data) :
    Needed (perform sha1 manager
      (.event (.receivedPiece index begin data) giver choice)).1.pieceManager index := by
  obtain ⟨piece, found, complete, fails⟩ := loses
  have lacks := fails_incomplete sha1 piece index begin data (sound index piece found) complete
    fails
  rw [perform, handle_event_piece,
    handle_recieve_found sha1 choice manager index begin.toNat data piece found,
    if_neg (by simp [lacks])]
  exact ⟨_, with_piece_found manager index _ piece found, lacks⟩

theorem available_stays (manager : DownloadManager) (call : Call) (peerIp : PeerIp)
    (index : UInt32)
    (member : index ∈ getPeerAvailablePieces (perform sha1 manager call).1 peerIp) :
    ¬ Rejoins peerIp call := by
  intro rejoins
  obtain ⟨sender, bitfield, present, -⟩ := (available_iff _ peerIp index).mp member
  rcases rejoins_cases sha1 manager call peerIp rejoins with ⟨other, rfl⟩ | gone
  · have inserted : (addPeer manager peerIp other).peers.lookup peerIp = some (other, none) :=
      AList.lookup_insert _
    cases inserted.symm.trans present
  · rw [gone] at present
    cases present

theorem peers_after_available (manager : DownloadManager) (event : PeerEvent) (peerIp : PeerIp)
    (index : UInt32) (sender : Sender) (bitfield : Bytes)
    (present : (peersAfter manager.peers event peerIp).lookup peerIp =
      some (sender, some bitfield))
    (member : index ∈ bitfieldPieces bitfield) :
    index ∈ getPeerAvailablePieces manager peerIp ∨
      (event = .receivedBitfield bitfield ∧ (manager.peers.lookup peerIp).isSome) ∨
      ∃ old, event = .receivedHave index ∧
        manager.peers.lookup peerIp = some (sender, some old) ∧
        index / 8 < UInt32.ofNat old.length := by
  cases event with
  | receivedBitfield bytes =>
      rcases lookup_modify_some _ _ _ _ _ present with ⟨-, old, there, same⟩ | ⟨different, -⟩
      · cases same
        exact Or.inr (Or.inl ⟨rfl, by simp [there]⟩)
      · exact absurd rfl different
  | receivedHave pieceIndex =>
      rcases lookup_modify_some _ _ _ _ _ present with ⟨-, old, there, same⟩ | ⟨different, -⟩
      · obtain ⟨first, record⟩ := old
        obtain ⟨rfl, marked⟩ := Prod.mk.inj same
        obtain ⟨bytes, rfl, rfl⟩ := Option.map_eq_some_iff.mp marked.symm
        rcases (mem_mark_available pieceIndex index bytes).mp member with before | ⟨rfl, room⟩
        · exact Or.inl ((available_iff manager peerIp index).mpr ⟨sender, bytes, there, before⟩)
        · exact Or.inr (Or.inr ⟨bytes, rfl, there, room⟩)
      · exact absurd rfl different
  | peerDisconnected =>
      rw [peers_after_disconnect, AList.lookup_erase] at present
      cases present
  | peerChoked | peerUnchoked | peerInterested | peerNotInterested | requestedBlock
  | receivedPiece | downloadRate =>
      exact Or.inl ((available_iff manager peerIp index).mpr ⟨sender, bitfield, present, member⟩)

theorem perform_available (manager : DownloadManager) (call : Call) (peerIp : PeerIp)
    (index : UInt32)
    (member : index ∈ getPeerAvailablePieces (perform sha1 manager call).1 peerIp) :
    index ∈ getPeerAvailablePieces manager peerIp ∨
      (∃ bitfield choice, call = .event (.receivedBitfield bitfield) peerIp choice ∧
        (manager.peers.lookup peerIp).isSome ∧ index ∈ bitfieldPieces bitfield) ∨
      ∃ choice sender old, call = .event (.receivedHave index) peerIp choice ∧
        manager.peers.lookup peerIp = some (sender, some old) ∧
        index / 8 < UInt32.ofNat old.length := by
  have stays := available_stays sha1 manager call peerIp index member
  obtain ⟨sender, bitfield, present, listed⟩ := (available_iff _ peerIp index).mp member
  have older : manager.peers.lookup peerIp = some (sender, some bitfield) →
      index ∈ getPeerAvailablePieces manager peerIp := fun same =>
    (available_iff manager peerIp index).mpr ⟨sender, bitfield, same, listed⟩
  cases call with
  | setDiskIo => exact Or.inl (older present)
  | addPeer other added =>
      exact Or.inl (older ((AList.lookup_insert_ne (Ne.symm stays)).symm.trans present))
  | removePeer other =>
      exact Or.inl (older ((AList.lookup_erase_ne (Ne.symm stays)).symm.trans present))
  | event event other choice =>
      rw [perform, handle_event_peers] at present
      by_cases same : peerIp = other
      · subst same
        rcases peers_after_available manager event peerIp index sender bitfield present listed with
          before | ⟨rfl, known⟩ | ⟨old, rfl, there, room⟩
        · exact Or.inl before
        · exact Or.inr (Or.inl ⟨bitfield, choice, rfl, known, listed⟩)
        · exact Or.inr (Or.inr ⟨choice, sender, old, rfl, there, room⟩)
      · exact Or.inl (older ((peers_after_other _ event other peerIp same).symm.trans present))

/-- A needed piece on offer was so before, or the call has brought it in one of the ways. -/
theorem offered_cases (manager : DownloadManager) (call : Call)
    (sound : ∀ key piece, manager.pieceManager.pieces.lookup key = some piece → Sound sha1 piece)
    (peerIp : PeerIp) (index : UInt32)
    (member : index ∈ getPeerAvailablePieces (perform sha1 manager call).1 peerIp)
    (needed : Needed (perform sha1 manager call).1.pieceManager index) :
    (index ∈ getPeerAvailablePieces manager peerIp ∧ Needed manager.pieceManager index) ∨
      Offered sha1 manager peerIp index call := by
  have listed := perform_available sha1 manager call peerIp index member
  rcases perform_needed sha1 manager call sound index needed with
    before | ⟨begin, data, giver, choice, rfl, loses⟩
  · rcases listed with old | ⟨bitfield, choice, rfl, known, told⟩ |
      ⟨choice, sender, bitfield, rfl, there, room⟩
    · exact Or.inl ⟨old, before⟩
    · exact Or.inr (.told bitfield choice known told before)
    · exact Or.inr (.announced choice sender bitfield there room before)
  · rcases listed with old | ⟨_, _, same, -⟩ | ⟨_, _, _, same, -⟩
    · exact Or.inr (.lost begin data giver choice loses old)
    · cases same
    · cases same

theorem offered_offers (manager : DownloadManager) (call : Call)
    (sound : ∀ key piece, manager.pieceManager.pieces.lookup key = some piece → Sound sha1 piece)
    (peerIp : PeerIp) (index : UInt32) (offered : Offered sha1 manager peerIp index call) :
    index ∈ getPeerAvailablePieces (perform sha1 manager call).1 peerIp ∧
      Needed (perform sha1 manager call).1.pieceManager index := by
  cases offered with
  | told bitfield choice known member needed =>
      obtain ⟨⟨sender, record⟩, present⟩ := Option.isSome_iff_exists.mp known
      rw [perform, handle_event_bitfield, handle_bitfield_manager, available_iff]
      exact ⟨⟨sender, bitfield, with_bitfield_found manager peerIp bitfield sender record present,
        member⟩, needed⟩
  | announced choice sender bitfield present room needed =>
      rw [available_iff, perform, handle_event_peers, peers_after_have, lookup_modify_self, present]
      exact ⟨⟨sender, _, rfl, (mem_mark_available index index bitfield).mpr (Or.inr ⟨rfl, room⟩)⟩,
        needed⟩
  | lost begin data giver choice loses available =>
      refine ⟨?_, loses_needed sha1 manager index begin data giver choice sound loses⟩
      obtain ⟨sender, bitfield, present, member⟩ :=
        (available_iff manager peerIp index).mp available
      rw [available_iff, perform, handle_event_peers]
      exact ⟨sender, bitfield, present, member⟩

end Offers

section Runs

variable (counts : Bool → Prop)

def Informed (start : DownloadManager) (calls : List Call) (manager : DownloadManager)
    (peerIp : PeerIp) : Prop :=
  ∃ sender record log delivered, manager.peers.lookup peerIp = some (sender, record) ∧
    Since sha1 start calls peerIp sender manager log ∧
    .sent sender .interested delivered ∈ log ∧ counts delivered

def AllInformed (start : DownloadManager) (calls : List Call) (manager : DownloadManager) : Prop :=
  ∀ peerIp index, index ∈ getPeerAvailablePieces manager peerIp →
    Needed manager.pieceManager index → Informed sha1 counts start calls manager peerIp

def Attracts (peerIp : PeerIp) (manager : DownloadManager) (call : Call) : Prop :=
  ∃ sender, (manager.peers.lookup peerIp).map Prod.fst = some sender ∧
    Asks counts manager sender call

def Attracted (start : DownloadManager) (calls : List Call) (peerIp : PeerIp) : Prop :=
  Remembers (downloads sha1) (Attracts counts peerIp) (Rejoins peerIp) start calls

theorem since_ran (start state : DownloadManager) (calls : List Call) (peerIp : PeerIp)
    (sender : Sender) (log : List Action)
    (since : Since sha1 start calls peerIp sender state log) :
    ∃ before, run (downloads sha1) start calls = some (state, before ++ log) := by
  obtain ⟨past, later, joined, before, rfl, -, began, ran⟩ := since
  refine ⟨before, (run_append_iff _ _ _ _ _ _).mpr ⟨joined, before, log, began, ?_, rfl⟩⟩
  exact (run_cons_iff _ _ _ _ _ _).mpr ⟨addPeer joined peerIp sender, [], log, rfl, ran, rfl⟩

theorem since_snoc (start state after : DownloadManager) (calls : List Call) (call : Call)
    (whole : List Action) (ran : run (downloads sha1) start calls = some (state, whole))
    (peerIp : PeerIp) (sender : Sender) (log : List Action)
    (since : Since sha1 start (calls ++ [call]) peerIp sender after log) :
    (call = .addPeer peerIp sender ∧ log = []) ∨
      ((∀ other, call ≠ .addPeer peerIp other) ∧
        ∃ earlier, Since sha1 start calls peerIp sender state earlier ∧
          log = earlier ++ (perform sha1 state call).2) := by
  obtain ⟨past, later, joined, before, same, last, began, goes⟩ := since
  rcases split_snoc past later calls (.addPeer peerIp sender) call same with
    ⟨rfl, -, added⟩ | ⟨rest, rfl, rfl⟩
  · obtain ⟨-, rfl⟩ := Prod.mk.inj (Option.some.inj goes)
    exact Or.inl ⟨added, rfl⟩
  · obtain ⟨middle, earlier, emitted, first, stepped, rfl⟩ :=
      (run_snoc_iff _ _ _ rest call log).mp goes
    have since : Since sha1 start (past ++ .addPeer peerIp sender :: rest) peerIp sender middle
        earlier := by
      refine ⟨past, rest, joined, before, rfl, ?_, began, first⟩
      exact fun other member => last other (List.mem_append_left _ member)
    obtain ⟨_, again⟩ := since_ran sha1 start middle _ peerIp sender earlier since
    obtain ⟨rfl, -⟩ := Prod.mk.inj (Option.some.inj (ran.symm.trans again))
    obtain ⟨-, rfl⟩ := Prod.mk.inj (Option.some.inj stepped)
    refine Or.inr ⟨?_, earlier, since, rfl⟩
    rintro other rfl
    exact last other (List.mem_append_right rest List.mem_cons_self)

theorem informed_rejoined (start state : DownloadManager) (calls : List Call) (call : Call)
    (whole : List Action) (ran : run (downloads sha1) start calls = some (state, whole))
    (peerIp : PeerIp) (rejoins : Rejoins peerIp call) :
    ¬ Informed sha1 counts start (calls ++ [call]) (perform sha1 state call).1 peerIp := by
  rintro ⟨sender, record, log, delivered, present, since, member, -⟩
  rcases rejoins_cases sha1 state call peerIp rejoins with ⟨other, rfl⟩ | gone
  · rcases since_snoc sha1 start state _ calls _ whole ran peerIp sender log since with
      ⟨-, rfl⟩ | ⟨later, -⟩
    · cases member
    · exact later other rfl
  · rw [gone] at present
    cases present

theorem sender_iff (manager : DownloadManager) (peerIp : PeerIp) (sender : Sender) :
    (manager.peers.lookup peerIp).map Prod.fst = some sender ↔
      ∃ record, manager.peers.lookup peerIp = some (sender, record) := by
  cases manager.peers.lookup peerIp with
  | none => simp
  | some peer =>
      obtain ⟨first, record⟩ := peer
      simp

theorem sender_stays (manager : DownloadManager) (call : Call) (peerIp : PeerIp)
    (stays : ¬ Rejoins peerIp call) (sender : Sender) :
    (∃ record, (perform sha1 manager call).1.peers.lookup peerIp = some (sender, record)) ↔
      ∃ record, manager.peers.lookup peerIp = some (sender, record) := by
  rw [← sender_iff, ← sender_iff, perform_sender sha1 manager call peerIp stays]

theorem informed_step (start state : DownloadManager) (calls : List Call) (call : Call)
    (whole : List Action) (ran : run (downloads sha1) start calls = some (state, whole))
    (registered : Registered sha1 start calls state) (peerIp : PeerIp)
    (stays : ¬ Rejoins peerIp call) :
    Informed sha1 counts start (calls ++ [call]) (perform sha1 state call).1 peerIp ↔
      Attracts counts peerIp state call ∨ Informed sha1 counts start calls state peerIp := by
  have known := sender_stays sha1 state call peerIp stays
  constructor
  · rintro ⟨sender, record, log, delivered, present, since, member, fine⟩
    obtain ⟨older, there⟩ := (known sender).mp ⟨record, present⟩
    rcases since_snoc sha1 start state _ calls call whole ran peerIp sender log since with
      ⟨rfl, -⟩ | ⟨-, earlier, before, rfl⟩
    · exact absurd rfl stays
    · rcases List.mem_append.mp member with old | new
      · exact Or.inr ⟨sender, older, earlier, delivered, there, before, old, fine⟩
      · exact Or.inl ⟨sender, (sender_iff state peerIp sender).mpr ⟨older, there⟩,
          (perform_interested_iff sha1 counts state call sender).mp ⟨delivered, new, fine⟩⟩
  · have rest : ∀ sender, call ≠ .addPeer peerIp sender := by
      rintro sender rfl
      exact stays rfl
    rintro (⟨sender, named, asks⟩ | ⟨sender, record, log, delivered, there, since, member, fine⟩)
    · obtain ⟨record, there⟩ := (sender_iff state peerIp sender).mp named
      obtain ⟨after, present⟩ := (known sender).mpr ⟨record, there⟩
      obtain ⟨delivered, member, fine⟩ :=
        (perform_interested_iff sha1 counts state call sender).mpr asks
      obtain ⟨log, since⟩ := registered peerIp sender record there
      exact ⟨sender, after, _, delivered, present,
        since_step sha1 start state calls call peerIp sender log since rest,
        List.mem_append_right log member, fine⟩
    · obtain ⟨after, present⟩ := (known sender).mpr ⟨record, there⟩
      exact ⟨sender, after, _, delivered, present,
        since_step sha1 start state calls call peerIp sender log since rest,
        List.mem_append_left _ member, fine⟩

theorem informed_iff_attracted (torrent : Torrent) (blockSize : UInt32)
    (start finish : DownloadManager) (calls : List Call) (log : List Action)
    (began : DownloadManager.new torrent blockSize = some start)
    (ran : run (downloads sha1) start calls = some (finish, log)) (peerIp : PeerIp) :
    Informed sha1 counts start calls finish peerIp ↔
      Attracted sha1 counts start calls peerIp := by
  refine run_performed sha1 start calls (fun past state _ =>
      Informed sha1 counts start past state peerIp ↔ Attracted sha1 counts start past peerIp)
    ?_ ?_ calls (List.prefix_refl calls) finish log ran
  · apply iff_of_false
    · rintro ⟨sender, record, _, _, present, -⟩
      rw [start_unregistered torrent blockSize start began] at present
      cases present
    · exact remembers_nil _ _ _ start
  · intro past call state log _ ran same
    have registered := run_registered sha1 torrent blockSize start state past log began ran
    rw [Attracted, remembers_snoc_iff _ _ _ start state past call log ran]
    by_cases rejoins : Rejoins peerIp call
    · apply iff_of_false
      · exact informed_rejoined sha1 counts start state past call log ran peerIp rejoins
      · rintro (⟨_, _, _, _, _, _, rfl, -⟩ | ⟨-, stays⟩)
        · exact rejoins
        · exact stays rejoins
    · rw [informed_step sha1 counts start state past call log ran registered peerIp rejoins, same]
      exact or_congr_right ⟨fun earlier => ⟨earlier, rejoins⟩, And.left⟩

/-- Whatever needed piece the call makes a peer offer, a bitfield of the peer had a needed
piece since it was registered, this call included. -/
def Awaited (start : DownloadManager) (past : List Call) (manager : DownloadManager)
    (call : Call) : Prop :=
  ∀ peerIp index, Offered sha1 manager peerIp index call →
    Attracted sha1 counts start (past ++ [call]) peerIp

theorem informed_kept_iff (torrent : Torrent) (blockSize : UInt32)
    (start state : DownloadManager) (past : List Call) (call : Call) (log : List Action)
    (began : DownloadManager.new torrent blockSize = some start)
    (ran : run (downloads sha1) start past = some (state, log))
    (informed : AllInformed sha1 counts start past state) :
    AllInformed sha1 counts start (past ++ [call]) (perform sha1 state call).1 ↔
      Awaited sha1 counts start past state call := by
  have sound := run_sound sha1 torrent blockSize start state past log began ran
  have same := informed_iff_attracted sha1 counts torrent blockSize start _ _ _ began
    (run_further sha1 start state past log call ran)
  constructor
  · intro all peerIp index offered
    obtain ⟨member, needed⟩ := offered_offers sha1 state call sound peerIp index offered
    exact (same peerIp).mp (all peerIp index member needed)
  · intro awaited peerIp index member needed
    apply (same peerIp).mpr
    rcases offered_cases sha1 state call sound peerIp index member needed with
      ⟨available, before⟩ | offered
    · have earlier := (informed_iff_attracted sha1 counts torrent blockSize start state past log
        began ran peerIp).mp (informed peerIp index available before)
      exact (remembers_snoc_iff _ _ _ start state past call log ran).mpr
        (Or.inr ⟨earlier, available_stays sha1 state call peerIp index member⟩)
    · exact awaited peerIp index offered

def AlwaysInformed (start : DownloadManager) (calls : List Call) : Prop :=
  ∀ past state log, past <+: calls → run (downloads sha1) start past = some (state, log) →
    AllInformed sha1 counts start past state

def AlwaysAwaited (start : DownloadManager) (calls : List Call) : Prop :=
  ∀ past call state log, past ++ [call] <+: calls →
    run (downloads sha1) start past = some (state, log) →
    Awaited sha1 counts start past state call

/-- Interest is never left untold exactly when no call makes a peer offer a needed piece
before a bitfield of the peer has had one. -/
theorem always_informed_iff (torrent : Torrent) (blockSize : UInt32) (start : DownloadManager)
    (began : DownloadManager.new torrent blockSize = some start) (calls : List Call) :
    AlwaysInformed sha1 counts start calls ↔ AlwaysAwaited sha1 counts start calls := by
  constructor
  · intro always past call state log inside ran
    have before := always past state log ((List.prefix_append past [call]).trans inside) ran
    exact (informed_kept_iff sha1 counts torrent blockSize start state past call log began ran
      before).mp (always _ _ _ inside (run_further sha1 start state past log call ran))
  · intro awaited past state log inside ran
    refine run_performed sha1 start calls
      (fun past state _ => AllInformed sha1 counts start past state) ?_ ?_ past inside state log ran
    · intro peerIp index member
      obtain ⟨sender, bitfield, present, -⟩ := (available_iff start peerIp index).mp member
      rw [start_unregistered torrent blockSize start began] at present
      cases present
    · intro past call state log further ran informed
      exact (informed_kept_iff sha1 counts torrent blockSize start state past call log began ran
        informed).mpr (awaited past call state log further ran)

theorem always_informed_iff_asked :
    AlwaysInformed zeroHash (fun _ => True) oneBlockManager askedOnce ↔
      AlwaysAwaited zeroHash (fun _ => True) oneBlockManager askedOnce :=
  always_informed_iff zeroHash (fun _ => True) oneBlock 4 oneBlockManager (Option.some_get _).symm
    askedOnce

/-- A peer with no piece in its bitfield announces one, and nothing is sent to it. -/
theorem announced_piece_untold :
    DownloadManager.new oneBlock 4 = some oneBlockManager ∧
      ¬ AlwaysInformed zeroHash (fun _ => True) oneBlockManager
        (.addPeer default 0 :: tellFirst [0]) := by
  refine ⟨(Option.some_get _).symm, fun always => ?_⟩
  have silent : run (downloads zeroHash) oneBlockManager (.addPeer default 0 :: tellFirst [0]) =
      some (handleHave (handleBitfield default (addPeer oneBlockManager default 0) default
        [0]).1 default 0, []) := rfl
  obtain ⟨sender, record, log, delivered, -, since, member, -⟩ :=
    always _ _ _ (List.prefix_refl _) silent default 0 (by decide) ⟨_, rfl, rfl⟩
  obtain ⟨before, ran⟩ := since_ran zeroHash oneBlockManager _ _ default sender log since
  have empty := congrArg Prod.snd (Option.some.inj (silent.symm.trans ran))
  rw [(List.append_eq_nil_iff.mp empty.symm).2] at member
  cases member

end Runs

end MotteSeed.Interest
