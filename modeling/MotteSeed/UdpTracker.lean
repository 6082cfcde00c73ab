import MotteSeed.Tracker
import MotteSeed.Toolkit.Exchange

/-! `tracker_udp.rs`. Both exchanges are the same loop over the socket: a random
transaction id, a request, one wait for a datagram. Finding the address of the tracker
and binding the socket are not modelled. Methods of the client take from their
surroundings, as a `Poll`, the clock at each reading and what each exchange returns. -/
namespace MotteSeed.UdpTracker
open Toolkit Toolkit.Exchange PeerWire TorrentMeta PieceStore Tracker

section Formats

def u32Field (data : Bytes) (index : Nat) : UInt32 :=
  UInt32.ofNat (BigEndian.decode ((data.drop index).take 4))

def u64Field (data : Bytes) (index : Nat) : UInt64 :=
  UInt64.ofNat (BigEndian.decode ((data.drop index).take 8))

structure AnnounceRequestUdp where
  infoHash : Hash
  peerId : Hash
  event : UInt32
  ipAddress : UInt32
  key : UInt32
  numWant : UInt32
  port : UInt16

/-- The key is random. -/
def AnnounceRequestUdp.new (infoHash peerId : Hash) (port : UInt16) (key : UInt32) :
    AnnounceRequestUdp :=
  { infoHash, peerId, event := 0, ipAddress := 0, key, numWant := 50, port }

/-- The statistics are read when the request is written. -/
def AnnounceRequestUdp.toBytes (request : AnnounceRequestUdp) (stats : TorrentStats)
    (connectionId : UInt64) (transactionId : UInt32) : Bytes :=
  BigEndian.encode 8 connectionId.toNat ++ BigEndian.encode 4 1 ++
    BigEndian.encode 4 transactionId.toNat ++ request.infoHash.toList ++
    request.peerId.toList ++ BigEndian.encode 8 stats.downloaded.toNat ++
    BigEndian.encode 8 stats.left.toNat ++ BigEndian.encode 8 stats.uploaded.toNat ++
    BigEndian.encode 4 request.event.toNat ++ BigEndian.encode 4 request.ipAddress.toNat ++
    BigEndian.encode 4 request.key.toNat ++ BigEndian.encode 4 request.numWant.toNat ++
    BigEndian.encode 2 request.port.toNat

structure AnnounceResponseUdp where
  action : UInt32
  transactionId : UInt32
  interval : UInt32
  leechers : UInt32
  seeders : UInt32
  peers : List PeerIp
  deriving DecidableEq

def AnnounceResponseUdp.fromBytes (data : Bytes) : Except TrackerError AnnounceResponseUdp :=
  if data.length < 20 then .error (.other "Response too short")
  else
    let peerData := data.drop 20
    if peerData.length % 6 ≠ 0 then .error (.other "Invalid peer data length")
    else
      (collectPeers (.other sliceFault) peerData).map fun peers =>
        { action := u32Field data 0, transactionId := u32Field data 4
          interval := u32Field data 8, leechers := u32Field data 12
          seeders := u32Field data 16, peers }

structure ConnectionResponse where
  action : UInt32
  transactionId : UInt32
  connectionId : UInt64
  deriving DecidableEq

def ConnectionResponse.fromBytes (data : Vector UInt8 16) : ConnectionResponse :=
  { action := u32Field data.toList 0, transactionId := u32Field data.toList 4
    connectionId := u64Field data.toList 8 }

def createConnectRequest (transactionId : UInt32) : Bytes :=
  BigEndian.encode 8 0x41727101980 ++ BigEndian.encode 4 0 ++
    BigEndian.encode 4 transactionId.toNat

end Formats

section Exchanges

/-- `recv_from` into a buffer of 1024 bytes; the sender is not looked at. -/
def recvFrom (datagram : Bytes) : Bytes := datagram.take 1024

def recvConnIdResponse (datagram : Bytes) : Except TrackerError ConnectionResponse :=
  let buf := recvFrom datagram
  let bytesReceived := buf.length
  if bytesReceived ≠ 16 then
    .error (.other s!"Invalid tracker response length: expected 16, got {bytesReceived}")
  else match toArray 16 (buf.take 16) with
    | some data => .ok (ConnectionResponse.fromBytes data)
    | none => .error (.other "Failed to parse response")

def recvAnnounceResponse (datagram : Bytes) : Except TrackerError AnnounceResponseUdp :=
  let buf := recvFrom datagram
  let bytesReceived := buf.length
  if bytesReceived < 20 then
    .error (.other s!"Invalid tracker response length: expected at least 20, got {bytesReceived}")
  else AnnounceResponseUdp.fromBytes buf

def maxRetries : Nat := 3

def getConnectionId : Protocol UInt32 Bytes ConnectionResponse UInt64 TrackerError where
  attempts := maxRetries
  request := fun _ transactionId => createConnectRequest transactionId
  receive := recvConnIdResponse
  matched := fun transactionId response =>
    response.action = 0 ∧ response.transactionId = transactionId
  value := ConnectionResponse.connectionId
  exhausted := .other "Max Retries Exceeded"

/-- The loop of `announce`; `stats` is what each attempt reads. -/
def announce (connectionId : UInt64) (request : AnnounceRequestUdp) (stats : Nat → TorrentStats) :
    Protocol UInt32 Bytes AnnounceResponseUdp AnnounceResponseUdp TrackerError where
  attempts := maxRetries
  request := fun attempt transactionId =>
    request.toBytes (stats attempt) connectionId transactionId
  receive := recvAnnounceResponse
  matched := fun transactionId response =>
    response.action = 1 ∧ response.transactionId = transactionId
  value := id
  exhausted := .other "Max Retries Exceeded"

end Exchanges

structure TrackerUdp where
  connectionId : UInt64
  connectionTime : Nat
  announceRequest : AnnounceRequestUdp
  lastAnnounce : Nat
  announceResponse : AnnounceResponseUdp

/-- What one call of `get_peers` meets. An exchange that is not made has no effect. -/
structure Poll where
  checkedAt : Nat
  askedAt : Nat
  connected : Except TrackerError UInt64
  receivedAt : Nat
  announced : Except TrackerError AnnounceResponseUdp
  announcedAt : Nat

section Client

def connectionExpiry : Nat := 120 * second

variable (poll : Poll)

def TrackerUdp.refreshConnection (tracker : TrackerUdp) :
    TrackerUdp × Except TrackerError Unit :=
  match poll.connected with
  | .ok connectionId => ({ tracker with connectionId }, .ok ())
  | .error reason => (tracker, .error reason)

def TrackerUdp.getConnectionId (tracker : TrackerUdp) :
    TrackerUdp × List Contact × Except TrackerError UInt64 :=
  if elapsed poll.askedAt tracker.connectionTime ≥ connectionExpiry then
    match tracker.refreshConnection poll with
    | (refreshed, .ok ()) => (refreshed, [.connect], .ok refreshed.connectionId)
    | (refreshed, .error reason) => (refreshed, [.connect], .error reason)
  else (tracker, [], .ok tracker.connectionId)

def TrackerUdp.announce (tracker : TrackerUdp) :
    TrackerUdp × List Contact × Except TrackerError AnnounceResponseUdp :=
  match tracker.getConnectionId poll with
  | (asked, contacts, .error reason) => (asked, contacts, .error reason)
  | (asked, contacts, .ok _) =>
      match poll.announced with
      | .error reason => (asked, contacts ++ [.announce], .error reason)
      | .ok response =>
          ({ asked with lastAnnounce := poll.announcedAt }, contacts ++ [.announce], .ok response)

def TrackerUdp.due (tracker : TrackerUdp) : Bool :=
  asSecs (elapsed poll.checkedAt tracker.lastAnnounce) > tracker.announceResponse.interval.toNat

def TrackerUdp.getPeers (tracker : TrackerUdp) :
    TrackerUdp × List Contact × Except TrackerError (List PeerIp) :=
  if tracker.due poll then
    match tracker.announce poll with
    | (announced, contacts, .ok announceResponse) =>
        ({ announced with announceResponse }, contacts, .ok announceResponse.peers)
    | (announced, contacts, .error reason) => (announced, contacts, .error reason)
  else (tracker, [], .ok tracker.announceResponse.peers)

/-- `TrackerUDP::new` behind the bound socket: what both exchanges return, and the
clock when the fields are set. -/
def TrackerUdp.new (request : AnnounceRequestUdp) (connected : Except TrackerError UInt64)
    (announced : Except TrackerError AnnounceResponseUdp) (connectionTime lastAnnounce : Nat) :
    Except TrackerError TrackerUdp := do
  let connectionId ← connected
  let announceResponse ← announced
  return { connectionId, connectionTime, announceRequest := request, lastAnnounce
           announceResponse }

end Client

section Cases

variable (tracker : TrackerUdp) (poll : Poll)

/-- A lookup behind the expiry connects and replaces only the id, an earlier one does nothing. -/
theorem connection_id_cases :
    (connectionExpiry ≤ elapsed poll.askedAt tracker.connectionTime ∧
      ((∃ connectionId, tracker.getConnectionId poll =
          ({ tracker with connectionId }, [.connect], .ok connectionId)) ∨
        ∃ reason, tracker.getConnectionId poll = (tracker, [.connect], .error reason))) ∨
    (elapsed poll.askedAt tracker.connectionTime < connectionExpiry ∧
      tracker.getConnectionId poll = (tracker, [], .ok tracker.connectionId)) := by
  unfold TrackerUdp.getConnectionId TrackerUdp.refreshConnection
  by_cases expired : elapsed poll.askedAt tracker.connectionTime ≥ connectionExpiry
  · rw [if_pos expired]
    refine Or.inl ⟨expired, ?_⟩
    cases poll.connected with
    | ok connectionId => exact Or.inl ⟨connectionId, rfl⟩
    | error reason => exact Or.inr ⟨reason, rfl⟩
  · rw [if_neg expired]
    exact Or.inr ⟨Nat.lt_of_not_le expired, rfl⟩

theorem announce_cases :
    (∃ reason, (tracker.getConnectionId poll).2.2 = .error reason ∧
      tracker.announce poll = ((tracker.getConnectionId poll).1,
        (tracker.getConnectionId poll).2.1, .error reason)) ∨
    (∃ reason, tracker.announce poll = ((tracker.getConnectionId poll).1,
      (tracker.getConnectionId poll).2.1 ++ [.announce], .error reason)) ∨
    (∃ response, tracker.announce poll =
      ({ (tracker.getConnectionId poll).1 with lastAnnounce := poll.announcedAt },
        (tracker.getConnectionId poll).2.1 ++ [.announce], .ok response)) := by
  unfold TrackerUdp.announce
  obtain ⟨asked, contacts, result⟩ := tracker.getConnectionId poll
  cases result with
  | error reason => exact Or.inl ⟨reason, rfl, rfl⟩
  | ok connectionId =>
      cases poll.announced with
      | error reason => exact Or.inr (Or.inl ⟨reason, rfl⟩)
      | ok response => exact Or.inr (Or.inr ⟨response, rfl⟩)

theorem get_peers_cases :
    (tracker.due poll = true ∧
      ((∃ announceResponse, (tracker.announce poll).2.2 = .ok announceResponse ∧
          tracker.getPeers poll = ({ (tracker.announce poll).1 with announceResponse },
            (tracker.announce poll).2.1, .ok announceResponse.peers)) ∨
        ∃ reason, (tracker.announce poll).2.2 = .error reason ∧
          tracker.getPeers poll = ((tracker.announce poll).1, (tracker.announce poll).2.1,
            .error reason))) ∨
    (¬ tracker.due poll = true ∧
      tracker.getPeers poll = (tracker, [], .ok tracker.announceResponse.peers)) := by
  unfold TrackerUdp.getPeers
  by_cases due : tracker.due poll = true
  · rw [if_pos due]
    refine Or.inl ⟨due, ?_⟩
    obtain ⟨announced, contacts, result⟩ := tracker.announce poll
    cases result with
    | ok announceResponse => exact Or.inl ⟨announceResponse, rfl, rfl⟩
    | error reason => exact Or.inr ⟨reason, rfl, rfl⟩
  · rw [if_neg due]
    exact Or.inr ⟨due, rfl⟩

end Cases

end MotteSeed.UdpTracker
