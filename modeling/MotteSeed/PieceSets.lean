import MotteSeed.Unchoke
import Mathlib.Data.Set.Insert

/-! The set of pieces that a bitfield stands for. The list of the manager, the test in
the state of a connection and the update on a have message each find the bit of a piece
in their own way; all three read or change this one set. -/
namespace MotteSeed.PieceSets
open Toolkit Toolkit.HashTable Toolkit.Bitfield PeerWire PeerConnection TorrentMeta PieceStore
  PieceShape Downloads DownloadSafety Availability Unchoke

def pieceSet (bitfield : Bytes) : Set UInt32 := {index | bit bitfield index.toNat = true}

def availableSet (manager : DownloadManager) (peerIp : PeerIp) : Set UInt32 :=
  {index | index ∈ getPeerAvailablePieces manager peerIp}

structure OnlyRecord (before after : DownloadManager) (peerIp : PeerIp) : Prop where
  pieceManager : after.pieceManager = before.pieceManager
  diskIo : after.diskIo = before.diskIo
  others : ∀ other, other ≠ peerIp → after.peers.lookup other = before.peers.lookup other

section Bitfields

variable (bitfield : Bytes) (short : bitfield.length < 2 ^ 29)

theorem has_piece_iff_mem (state : PeerState) (same : state.bitfield = some bitfield)
    (index : UInt32) : state.hasPiece index = true ↔ index ∈ pieceSet bitfield := by
  rw [has_piece_iff, same]
  constructor
  · rintro ⟨other, found, held⟩
    obtain rfl := Option.some.inj found
    exact held
  · exact fun held => ⟨bitfield, rfl, held⟩

include short

theorem mem_pieces_iff (index : UInt32) :
    index ∈ bitfieldPieces bitfield ↔ index ∈ pieceSet bitfield :=
  mem_short_bitfield bitfield short index

theorem piece_set_mark (index : UInt32) (inside : index.toNat < 8 * bitfield.length) :
    pieceSet (markAvailable index bitfield) = insert index (pieceSet bitfield) := by
  have row : index.toNat / 8 < bitfield.length % 2 ^ 32 := by
    rw [Nat.mod_eq_of_lt (by omega)]
    omega
  ext other
  rw [mark_available_eq, if_pos row, Set.mem_insert_iff, or_comm]
  change bit (mark bitfield index.toNat) other.toNat = true ↔
    bit bitfield other.toNat = true ∨ other = index
  rw [bit_mark, UInt32.toNat_inj]
  apply or_congr_right
  constructor
  · rintro ⟨rfl, -⟩
    rfl
  · rintro rfl
    exact ⟨rfl, inside⟩

end Bitfields

section Managers

variable (manager : DownloadManager) (peerIp : PeerIp) (sender : Sender) (bitfield : Bytes)

theorem handle_have_only (index : UInt32) :
    OnlyRecord manager (handleHave manager peerIp index) peerIp :=
  ⟨rfl, rfl, fun other different => lookup_modify_ne manager.peers peerIp other _ different⟩

variable (stored : manager.peers.lookup peerIp = some (sender, some bitfield))
include stored

theorem handle_have_stored (index : UInt32) :
    (handleHave manager peerIp index).peers.lookup peerIp =
      some (sender, some (markAvailable index bitfield)) := by
  rw [handleHave, lookup_modify_self, stored]
  rfl

variable (short : bitfield.length < 2 ^ 29)
include short

theorem available_set_stored : availableSet manager peerIp = pieceSet bitfield := by
  ext index
  change index ∈ getPeerAvailablePieces manager peerIp ↔ _
  rw [available_pieces_stored manager peerIp sender bitfield stored]
  exact mem_pieces_iff bitfield short index

/-- The list is ascending and holds what a connection with the same bitfield has; a have
message for a piece within the bitfield adds this piece and changes nothing else. -/
theorem readings_agree (state : PeerState) (same : state.bitfield = some bitfield)
    (index : UInt32) :
    (getPeerAvailablePieces manager peerIp).Pairwise (· < ·) ∧
      (index ∈ getPeerAvailablePieces manager peerIp ↔ state.hasPiece index = true) ∧
      (index.toNat < 8 * bitfield.length → ∃ marked,
        (handleHave manager peerIp index).peers.lookup peerIp = some (sender, some marked) ∧
        marked.length = bitfield.length ∧
        availableSet (handleHave manager peerIp index) peerIp =
          insert index (availableSet manager peerIp) ∧
        OnlyRecord manager (handleHave manager peerIp index) peerIp) := by
  rw [available_pieces_stored manager peerIp sender bitfield stored]
  refine ⟨bitfield_pieces_ascending bitfield short, ?_, fun inside => ?_⟩
  · rw [mem_pieces_iff bitfield short, has_piece_iff_mem bitfield state same]
  · have after := handle_have_stored manager peerIp sender bitfield stored index
    have size := mark_available_length index bitfield
    refine ⟨markAvailable index bitfield, after, size, ?_, handle_have_only manager peerIp index⟩
    rw [available_set_stored _ peerIp sender _ after (size.trans_lt short),
      available_set_stored manager peerIp sender bitfield stored short,
      piece_set_mark bitfield short index inside]

end Managers

def twoPieces : DownloadManager :=
  (handleBitfield default (addPeer oneBlockManager default 0) default [32, 1]).1

theorem readings_agree_two :
    (getPeerAvailablePieces twoPieces default).Pairwise (· < ·) ∧
      (9 ∈ getPeerAvailablePieces twoPieces default ↔
        (PeerState.new (some [32, 1])).hasPiece 9 = true) ∧
      ((9 : UInt32).toNat < 8 * 2 → ∃ marked,
        (handleHave twoPieces default 9).peers.lookup default = some (0, some marked) ∧
        marked.length = 2 ∧
        availableSet (handleHave twoPieces default 9) default =
          insert 9 (availableSet twoPieces default) ∧
        OnlyRecord twoPieces (handleHave twoPieces default 9) default) :=
  readings_agree twoPieces default 0 [32, 1] rfl (by decide) (PeerState.new (some [32, 1])) rfl 9

end MotteSeed.PieceSets
