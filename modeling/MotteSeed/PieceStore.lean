import MotteSeed.TorrentMeta
import MotteSeed.Toolkit.HashTable

/-! Blocks, pieces and their manager: `block.rs`, `piece.rs` and
`piece_manager.rs`. Calls that iterate over a hash map take the iteration order,
calls that read the clock take the time, and `while` loops take fuel. Piece
priorities are left out; nothing modelled reads them. -/
namespace MotteSeed.PieceStore
open Toolkit Toolkit.HashTable PeerWire TorrentMeta

abbrev PeerIp := Vector UInt8 6

inductive BlockState where
  | missing
  | requested (peerIp : PeerIp) (instant : Nat)
  | received (bytes : Bytes)
  | written
  deriving DecidableEq

structure Block where
  index : UInt32
  offset : Nat
  length : UInt32
  state : BlockState
  deriving DecidableEq

section Blocks

def Block.new (index : UInt32) (offset : Nat) (length : UInt32) : Block :=
  { index, offset, length, state := .missing }

def Block.requestFromPeer (block : Block) (peerIp : PeerIp) (now : Nat) : Block :=
  { block with state := .requested peerIp now }

def Block.cancle (block : Block) : Block := { block with state := .missing }

def Block.timeout : Nat := 120 * 1000000000

/-- A request that has timed out is cancelled; its peer is returned. -/
def Block.reset (block : Block) (now : Nat) : Block × Option PeerIp :=
  match block.state with
  | .requested peerIp instant =>
      if now - instant > Block.timeout then (block.cancle, some peerIp) else (block, none)
  | .missing | .received _ | .written => (block, none)

/-- The length of the data is compared after its conversion to 32 bits. -/
def Block.receiveData (block : Block) (bytes : Bytes) : Block :=
  if UInt32.ofNat bytes.length = block.length then { block with state := .received bytes }
  else block

def Block.isComplete (block : Block) : Bool :=
  match block.state with
  | .received _ | .written => true
  | .missing | .requested _ _ => false

end Blocks

inductive PieceState where
  | missing
  | incomplete
  | complete
  | written
  deriving DecidableEq

structure Piece where
  index : UInt32
  length : Nat
  hash : Hash
  blocks : HashMap Nat Block
  state : PieceState
  blockSize : UInt32
  deriving DecidableEq

inductive Gathered where
  | data (bytes : Bytes)
  | missing
  | running
  deriving DecidableEq

section Pieces

/-- The block-creation loop; `none` while it has not ended. -/
def createBlocks (index : UInt32) (length : Nat) (blockSize : UInt32) :
    Nat → Nat → HashMap Nat Block → Option (HashMap Nat Block)
  | fuel, offset, blocks =>
      if offset < length then
        match fuel with
        | 0 => none
        | fuel + 1 =>
            -- The remainder is cast to 32 bits before it is compared.
            let blockLength := min blockSize (UInt32.ofNat (length - offset))
            createBlocks index length blockSize fuel (offset + blockLength.toNat)
              (blocks.insert offset (Block.new index offset blockLength))
      else some blocks

def Piece.new (index : UInt32) (length : Nat) (hash : Hash) (blockSize : UInt32) :
    Option Piece :=
  (createBlocks index length blockSize length 0 ∅).map fun blocks =>
    { index, length, hash, blocks, state := .missing, blockSize }

def Piece.requestFromPeer (piece : Piece) (offset : Nat) (peerIp : PeerIp) (now : Nat) :
    Piece :=
  { piece with blocks := modify piece.blocks offset fun block => block.requestFromPeer peerIp now }

def Piece.isFullyDownloaded (piece : Piece) : Bool :=
  (values piece.blocks).all Block.isComplete

/-- The loop that `verify` and `get_piece_data` share up to the stride: blocks are
looked up by offset until the piece length is reached or one is not `Received`. -/
def gather (blocks : HashMap Nat Block) (length : Nat) (stride : Block → UInt32) :
    Nat → Nat → Bytes → Gathered
  | fuel, offset, buf =>
      if offset < length then
        match fuel with
        | 0 => .running
        | fuel + 1 =>
            match blocks.lookup offset with
            | none => .missing
            | some block =>
                match block.state with
                | .received bytes =>
                    gather blocks length stride fuel (offset + (stride block).toNat)
                      (buf ++ bytes)
                | .missing | .requested _ _ | .written => .missing
      else .data buf

def Piece.hashedData (piece : Piece) : Gathered :=
  gather piece.blocks piece.length (fun _ => piece.blockSize) piece.length 0 []

def Piece.storedData (piece : Piece) : Gathered :=
  gather piece.blocks piece.length Block.length piece.length 0 []

def Piece.verify (sha1 : Bytes → Hash) (piece : Piece) : Piece × Bool :=
  match piece.hashedData with
  | .data buf =>
      -- A mismatch cancels every block; a missing block leaves the piece as it is.
      if sha1 buf = piece.hash then ({ piece with state := .complete }, true)
      else
        ({ piece with
            blocks := mapEntries (fun _ block => block.cancle) piece.blocks
            state := .missing }, false)
  | .missing | .running => (piece, false)

def Piece.receiveBlock (sha1 : Bytes → Hash) (piece : Piece) (offset : Nat) (data : Bytes) :
    Piece × Bool :=
  match piece.blocks.lookup offset with
  | some _ =>
      let stored := { piece with
        blocks := modify piece.blocks offset fun block => block.receiveData data }
      if stored.isFullyDownloaded then ((stored.verify sha1).1, true) else (stored, true)
  | none => (piece, false)

def Piece.maskWritten (piece : Piece) : Piece := { piece with state := .written }

def Piece.getNextMissingBlock (order : IterOrder (Entry Nat Block)) (piece : Piece) :
    Option Nat :=
  (firstEntry order (fun block => !block.isComplete) piece.blocks).map Sigma.fst

/-- Each block reads the clock on its own. -/
def Piece.resetTimeoutRequests (order : IterOrder (Entry Nat Block)) (clock : Nat → Nat)
    (piece : Piece) : Piece × HashMap Nat PeerIp :=
  ({ piece with
      blocks := mapEntries (fun offset block => (block.reset (clock offset)).1) piece.blocks },
    collect order (fun offset block => (block.reset (clock offset)).2) piece.blocks)

def Piece.isComplete (piece : Piece) : Bool :=
  match piece.state with
  | .complete | .written => true
  | .missing | .incomplete => false

def Piece.getPieceData (piece : Piece) : Option Bytes :=
  if piece.state = .complete then
    match piece.storedData with
    | .data bytes => some bytes
    | .missing | .running => none
  else none

end Pieces

structure PieceManager where
  pieces : HashMap UInt32 Piece
  torrent : Torrent
  blockSize : UInt32

section Manager

def createPieces (info : Info) (blockSize : UInt32) : Nat → Option (HashMap UInt32 Piece)
  | 0 => some ∅
  | i + 1 =>
      match createPieces info blockSize i with
      | none => none
      | some pieces =>
          match info.pieceHash i with
          | some pieceHash =>
              -- Every piece gets the full piece length, the last one too.
              (Piece.new (UInt32.ofNat i) info.pieceLength pieceHash blockSize).map fun piece =>
                pieces.insert (UInt32.ofNat i) piece
          | none => some pieces

def PieceManager.new (torrent : Torrent) (blockSize : UInt32) : Option PieceManager :=
  (createPieces torrent.info blockSize (torrent.info.rawPieces.length / 20)).map fun pieces =>
    { pieces, torrent, blockSize }

def PieceManager.getNextPieceToDownload (manager : PieceManager)
    (availablePieces : List UInt32) : Option UInt32 :=
  availablePieces.find? fun pieceIndex =>
    match manager.pieces.lookup pieceIndex with
    | some piece => piece.state = .missing ∨ piece.state = .incomplete
    | none => false

def PieceManager.getNextBlockForPiece (order : IterOrder (Entry Nat Block))
    (manager : PieceManager) (pieceIndex : UInt32) : Option (Nat × UInt32) :=
  match manager.pieces.lookup pieceIndex with
  | some piece =>
      match piece.getNextMissingBlock order with
      | some offset =>
          match piece.blocks.lookup offset with
          | some block => some (offset, block.length)
          | none => none
      | none => none
  | none => none

def PieceManager.requestBlock (manager : PieceManager) (pieceIndex : UInt32) (offset : Nat)
    (peerIp : PeerIp) (now : Nat) : PieceManager :=
  { manager with
    pieces := modify manager.pieces pieceIndex fun piece =>
      piece.requestFromPeer offset peerIp now }

def PieceManager.receiveBlock (sha1 : Bytes → Hash) (manager : PieceManager)
    (pieceIndex : UInt32) (offset : Nat) (data : Bytes) : PieceManager × Bool :=
  match manager.pieces.lookup pieceIndex with
  | some piece =>
      ({ manager with
          pieces := modify manager.pieces pieceIndex fun piece =>
            (piece.receiveBlock sha1 offset data).1 },
        (piece.receiveBlock sha1 offset data).1.isComplete)
  | none => (manager, false)

def PieceManager.markPieceWritten (manager : PieceManager) (pieceIndex : UInt32) :
    PieceManager :=
  { manager with pieces := modify manager.pieces pieceIndex Piece.maskWritten }

def PieceManager.getPieceData (manager : PieceManager) (pieceIndex : UInt32) : Option Bytes :=
  match manager.pieces.lookup pieceIndex with
  | some piece => piece.getPieceData
  | none => none

def PieceManager.isDownloadComplete (manager : PieceManager) : Bool :=
  (values manager.pieces).all Piece.isComplete

end Manager

end MotteSeed.PieceStore
