import MotteSeed.PieceStore
import MotteSeed.Toolkit.Chunks

/-! What both tracker clients share: `tracker_error.rs`, the fields of
`torrent_stats.rs` and the compact peer list of both answers. Errors of other crates
carry no detail here. Times are nanoseconds of one clock. -/
namespace MotteSeed.Tracker
open Toolkit Toolkit.Chunks PeerWire TorrentMeta PieceStore

inductive TrackerError where
  | invalidUri
  | streamError
  | hyperError
  | httpError
  | utf8Error
  | invalidUriParts
  | bencodeError (reason : BencodeDecodableError)
  | streamingError
  | other (reason : String)
  deriving DecidableEq

structure TorrentStats where
  downloaded : UInt64
  uploaded : UInt64
  left : UInt64
  deriving DecidableEq

def second : Nat := 1000000000

def elapsed (now earlier : Nat) : Nat := now - earlier

def asSecs (duration : Nat) : Nat := duration / second

inductive Contact where
  | connect
  | announce
  deriving DecidableEq

section Peers

def toArray (size : Nat) (bytes : Bytes) : Option (Vector UInt8 size) :=
  if exact : bytes.length = size then some ⟨bytes.toArray, by simpa using exact⟩ else none

def sliceFault : String := "could not convert slice to array"

/-- The loop over `chunks_exact(6)` that both answers have. -/
def collectPeers {ε : Type} (fault : ε) (bytes : Bytes) : Except ε (List PeerIp) :=
  (chunksExact 6 bytes).mapM fun chunk =>
    match toArray 6 chunk with
    | some peer => .ok peer
    | none => .error fault

def peerBytes (peers : List PeerIp) : Bytes := (peers.map Vector.toList).flatten

theorem to_array_to_list (size : Nat) (items : Vector UInt8 size) :
    toArray size items.toList = some items := by
  have exact : items.toList.length = size := by simp
  rw [toArray, dif_pos exact]
  simp [Vector.toList]

theorem to_list_exists (size : Nat) (bytes : Bytes) (exact : bytes.length = size) :
    ∃ items : Vector UInt8 size, items.toList = bytes :=
  ⟨⟨bytes.toArray, by simpa using exact⟩, by simp [Vector.toList]⟩

theorem peer_size (peers : List PeerIp) :
    ∀ chunk ∈ peers.map Vector.toList, chunk.length = 6 := by
  intro chunk member
  obtain ⟨peer, -, rfl⟩ := List.mem_map.mp member
  simp

theorem peer_bytes_length (peers : List PeerIp) : (peerBytes peers).length = peers.length * 6 := by
  rw [peerBytes, flatten_length 6 _ (peer_size peers), List.length_map]

theorem collect_peers_exact {ε : Type} (fault : ε) (peers : List PeerIp) :
    collectPeers fault (peerBytes peers) = .ok peers := by
  rw [collectPeers, peerBytes, chunks_exact_of_flatten 6 (by decide) _ (peer_size peers)]
  induction peers with
  | nil => rfl
  | cons peer rest ih =>
      simp only [List.map_cons, List.mapM_cons, to_array_to_list, ih]
      rfl

theorem peer_bytes_exists (bytes : Bytes) (whole : 6 ∣ bytes.length) :
    ∃ peers, peerBytes peers = bytes := by
  have sizes := chunks_exact_size 6 bytes
  have joined := chunks_exact_flatten 6 bytes whole
  generalize chunksExact 6 bytes = parts at sizes joined
  subst joined
  clear whole
  induction parts with
  | nil => exact ⟨[], rfl⟩
  | cons part rest ih =>
      obtain ⟨peers, same⟩ := ih fun other member => sizes other (List.mem_cons_of_mem part member)
      obtain ⟨peer, exact⟩ := to_list_exists 6 part (sizes part List.mem_cons_self)
      refine ⟨peer :: peers, ?_⟩
      rw [peerBytes] at same ⊢
      rw [List.map_cons, List.flatten_cons, List.flatten_cons, exact, same]

end Peers

end MotteSeed.Tracker
