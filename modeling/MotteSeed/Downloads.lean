import MotteSeed.PeerConnection
import MotteSeed.PieceStore
import MotteSeed.Toolkit.Runs

/-! `download_manager.rs`: the handlers of the event loop over the piece store and
the registered peers. A handler returns the manager it leaves and the commands and
disk writes it issues, in order. What the code takes from its surroundings while it
handles an event comes with the event, as a `Choice`. -/
namespace MotteSeed.Downloads
open Toolkit Toolkit.HashTable Toolkit.Runs PeerWire PeerConnection TorrentMeta PieceStore

abbrev Sender := Nat

abbrev Peers := HashMap PeerIp (Sender × Option Bytes)

structure DownloadManager where
  pieceManager : PieceManager
  peers : Peers
  diskIo : Bool

/-- Hash map orders, the clock, whether `write_piece` returns `Ok`, and which
command channels are still open. -/
structure Choice where
  blockOrder : IterOrder (Entry Nat Block)
  peerOrder : IterOrder (Entry PeerIp (Sender × Option Bytes))
  now : Nat
  written : Bool
  connected : Sender → Bool

instance : Inhabited Choice := ⟨default, default, 0, true, fun _ => true⟩

inductive Action where
  | sent (sender : Sender) (command : ManagerCommand) (delivered : Bool)
  | wrotePiece (pieceIndex : UInt32) (data : Bytes) (ok : Bool)
  deriving DecidableEq

section Handlers

variable (sha1 : Bytes → Hash) (choice : Choice)

def DownloadManager.new (torrent : Torrent) (blockSize : UInt32) : Option DownloadManager :=
  (PieceManager.new torrent blockSize).map fun pieceManager =>
    { pieceManager, peers := ∅, diskIo := false }

def setDiskIo (manager : DownloadManager) : DownloadManager := { manager with diskIo := true }

def addPeer (manager : DownloadManager) (peerIp : PeerIp) (sender : Sender) :
    DownloadManager :=
  { manager with peers := manager.peers.insert peerIp (sender, none) }

def removePeer (manager : DownloadManager) (peerIp : PeerIp) : DownloadManager :=
  { manager with peers := manager.peers.erase peerIp }

/-- The piece indices of a bitfield, the highest bit of a byte first. -/
def bitfieldPieces (bitfield : Bytes) : List UInt32 :=
  bitfield.zipIdx.flatMap fun (byte, byteIndex) =>
    (List.range 8).filterMap fun bitIndex =>
      if byte &&& (1 <<< UInt8.ofNat (7 - bitIndex)) ≠ 0 then
        some (UInt32.ofNat (byteIndex * 8 + bitIndex))
      else none

def getPeerAvailablePieces (manager : DownloadManager) (peerIp : PeerIp) : List UInt32 :=
  match manager.peers.lookup peerIp with
  | some (_, some bitfield) => bitfieldPieces bitfield
  | some (_, none) | none => []

def peerHasNeededPieces (manager : DownloadManager) (peerIp : PeerIp) : Bool :=
  (manager.pieceManager.getNextPieceToDownload
    (getPeerAvailablePieces manager peerIp)).isSome

/-- A send whose result the code discards. -/
def sendCommand (sender : Sender) (command : ManagerCommand) : Action :=
  .sent sender command (choice.connected sender)

def sendToPeer (manager : DownloadManager) (peerIp : PeerIp) (command : ManagerCommand) :
    List Action :=
  match manager.peers.lookup peerIp with
  | some (sender, _) => [sendCommand choice sender command]
  | none => []

def handleBitfield (manager : DownloadManager) (peerIp : PeerIp) (bitfield : Bytes) :
    DownloadManager × List Action :=
  let stored := { manager with
    peers := modify manager.peers peerIp fun peer => (peer.1, some bitfield) }
  if peerHasNeededPieces stored peerIp then
    (stored, sendToPeer choice stored peerIp .interested)
  else (stored, [])

def markAvailable (pieceIndex : UInt32) (bitfield : Bytes) : Bytes :=
  let byteIndex := pieceIndex / 8
  let bitIndex := 7 - pieceIndex % 8
  if byteIndex < UInt32.ofNat bitfield.length then
    bitfield.modify byteIndex.toNat fun byte => byte ||| (1 <<< bitIndex.toUInt8)
  else bitfield

def handleHave (manager : DownloadManager) (peerIp : PeerIp) (pieceIndex : UInt32) :
    DownloadManager :=
  { manager with
    peers := modify manager.peers peerIp fun peer =>
      (peer.1, peer.2.map (markAvailable pieceIndex)) }

def requestNextBlockForPiece (manager : DownloadManager) (peerIp : PeerIp)
    (pieceIndex : UInt32) : DownloadManager × List Action :=
  match manager.pieceManager.getNextBlockForPiece choice.blockOrder pieceIndex with
  | some (offset, length) =>
      let requested := { manager with
        pieceManager :=
          manager.pieceManager.requestBlock pieceIndex offset peerIp choice.now }
      (requested, sendToPeer choice requested peerIp
        (.requestBlock pieceIndex (UInt32.ofNat offset) length))
  | none => (manager, [])

def requestPiecesFromPeer (manager : DownloadManager) (peerIp : PeerIp) :
    DownloadManager × List Action :=
  match manager.pieceManager.getNextPieceToDownload (getPeerAvailablePieces manager peerIp) with
  | some pieceIndex => requestNextBlockForPiece choice manager peerIp pieceIndex
  | none => (manager, [])

def handleUnchoke (manager : DownloadManager) (peerIp : PeerIp) :
    DownloadManager × List Action :=
  requestPiecesFromPeer choice manager peerIp

def broadcastHave (manager : DownloadManager) (pieceIndex : UInt32) : List Action :=
  (choice.peerOrder.arrange manager.peers.entries).map fun peer =>
    sendCommand choice peer.2.1 (.havePiece pieceIndex)

def handleRecievePiece (manager : DownloadManager) (pieceIndex : UInt32) (begin : Nat)
    (block : Bytes) : DownloadManager × List Action :=
  let received := manager.pieceManager.receiveBlock sha1 pieceIndex begin block
  let stored := { manager with pieceManager := received.1 }
  if received.2 ∧ stored.diskIo then
    match stored.pieceManager.getPieceData pieceIndex with
    | some data =>
        if choice.written then
          ({ stored with pieceManager := stored.pieceManager.markPieceWritten pieceIndex },
            .wrotePiece pieceIndex data true :: broadcastHave choice stored pieceIndex)
        else (stored, [.wrotePiece pieceIndex data false])
    | none => (stored, [])
  else (stored, [])

def handleEvent (manager : DownloadManager) (event : PeerEvent) (peerIp : PeerIp) :
    DownloadManager × List Action :=
  match event with
  | .receivedBitfield bitfield => handleBitfield choice manager peerIp bitfield
  | .receivedHave pieceIndex => (handleHave manager peerIp pieceIndex, [])
  | .peerUnchoked => handleUnchoke choice manager peerIp
  | .receivedPiece index begin block =>
      handleRecievePiece sha1 choice manager index begin.toNat block
  | .peerDisconnected => (removePeer manager peerIp, [])
  | _ => (manager, [])

theorem available_pieces_stored (manager : DownloadManager) (peerIp : PeerIp) (sender : Sender)
    (bitfield : Bytes) (stored : manager.peers.lookup peerIp = some (sender, some bitfield)) :
    getPeerAvailablePieces manager peerIp = bitfieldPieces bitfield := by
  rw [getPeerAvailablePieces, stored]

theorem handle_event_bitfield (manager : DownloadManager) (bitfield : Bytes) (peerIp : PeerIp) :
    handleEvent sha1 choice manager (.receivedBitfield bitfield) peerIp =
      handleBitfield choice manager peerIp bitfield := rfl

theorem handle_event_unchoked (manager : DownloadManager) (peerIp : PeerIp) :
    handleEvent sha1 choice manager .peerUnchoked peerIp =
      handleUnchoke choice manager peerIp := rfl

theorem handle_event_piece (manager : DownloadManager) (index begin : UInt32) (block : Bytes)
    (peerIp : PeerIp) :
    handleEvent sha1 choice manager (.receivedPiece index begin block) peerIp =
      handleRecievePiece sha1 choice manager index begin.toNat block := rfl

end Handlers

inductive Call where
  | addPeer (peerIp : PeerIp) (sender : Sender)
  | removePeer (peerIp : PeerIp)
  | setDiskIo
  | event (event : PeerEvent) (peerIp : PeerIp) (choice : Choice)

def perform (sha1 : Bytes → Hash) (manager : DownloadManager) : Call →
    DownloadManager × List Action
  | .addPeer peerIp sender => (addPeer manager peerIp sender, [])
  | .removePeer peerIp => (removePeer manager peerIp, [])
  | .setDiskIo => (setDiskIo manager, [])
  | .event event peerIp choice => handleEvent sha1 choice manager event peerIp

def downloads (sha1 : Bytes → Hash) : Machine DownloadManager Call Action :=
  ⟨fun manager call => some (perform sha1 manager call)⟩

/-- What one `recv` of the loop yields; `none` once the channel is closed. -/
abbrev Received := Option (PeerEvent × PeerIp × Choice)

def handleReceived (sha1 : Bytes → Hash) (manager : DownloadManager) :
    Received → DownloadManager × List Action
  | some (event, peerIp, choice) => handleEvent sha1 choice manager event peerIp
  | none => (manager, [])

def runLoop (sha1 : Bytes → Hash) : DownloadManager → List Received →
    DownloadManager × List Action × Bool
  | manager, [] => (manager, [], false)
  | manager, received :: rest =>
      let handled := handleReceived sha1 manager received
      if handled.1.pieceManager.isDownloadComplete then (handled.1, handled.2, true)
      else
        let later := runLoop sha1 handled.1 rest
        (later.1, handled.2 ++ later.2.1, later.2.2)

end MotteSeed.Downloads
