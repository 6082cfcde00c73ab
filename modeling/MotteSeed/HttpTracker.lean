import MotteSeed.Tracker

/-! `tracker_http.rs`. Text is kept as its bytes. The `http` crate is a parameter: its
types, how it takes a URI apart and builds one. Connecting and sending are not
modelled; a method takes what its exchange returns from its `Poll`. -/
namespace MotteSeed.HttpTracker
open Toolkit PeerWire TorrentMeta PieceStore Tracker

section UrlEncoding

def isAsciiAlphanumeric (b : UInt8) : Bool :=
  (48 ≤ b && b ≤ 57) || (65 ≤ b && b ≤ 90) || (97 ≤ b && b ≤ 122)

def needsEncoding (b : UInt8) : Bool :=
  !(isAsciiAlphanumeric b ||
    match b with
    | 45 | 95 | 46 | 126 => true
    | _ => false)

/-- `char::from_digit(digit, 16)`. -/
def fromDigit (digit : UInt8) : Option UInt8 :=
  if digit < 10 then some (48 + digit) else if digit < 16 then some (87 + digit) else none

def toAsciiUppercase (b : UInt8) : UInt8 := if 97 ≤ b && b ≤ 122 then b - 32 else b

def hexDigit (digit : UInt8) : UInt8 := toAsciiUppercase ((fromDigit digit).getD 48)

/-- What the loop pushes for one byte; it has its own test. -/
def encodeByte (b : UInt8) : Bytes :=
  if isAsciiAlphanumeric b || b == 45 || b == 95 || b == 46 || b == 126 then [b]
  else [37, hexDigit (b >>> 4), hexDigit (b &&& 0xF)]

def urlEncodeCapacity (bytes : Hash) : Nat :=
  bytes.toList.length + (bytes.toList.filter needsEncoding).length * 2

def urlEncode (bytes : Hash) : Bytes := bytes.toList.flatMap encodeByte

end UrlEncoding

structure Parts (Scheme Authority PathAndQuery : Type) where
  scheme : Option Scheme
  authority : Option Authority
  pathAndQuery : Option PathAndQuery
  deriving DecidableEq

structure HttpCrate where
  Uri : Type
  Scheme : Type
  Authority : Type
  PathAndQuery : Type
  parse : Bytes → Option Uri
  intoParts : Uri → Parts Scheme Authority PathAndQuery
  fromParts : Parts Scheme Authority PathAndQuery → Option Uri
  tryFrom : Bytes → Option PathAndQuery
  path : PathAndQuery → Bytes
  query : PathAndQuery → Option Bytes

structure AnnounceRequestHttp where
  tracker : Bytes
  urlInfoHash : Bytes
  urlPeerId : Bytes
  port : UInt16
  compact : Bool

/-- `itoa`: the decimal digits. -/
def format (number : Nat) : Bytes :=
  (Nat.toDigits 10 number).map fun digit => UInt8.ofNat digit.toNat

section Requests

def AnnounceRequestHttp.new (tracker : Bytes) (infoHash peerId : Hash) (port : UInt16)
    (compact : Bool) : Except TrackerError AnnounceRequestHttp :=
  if tracker.toByteArray.validateUTF8 then
    .ok { tracker, urlInfoHash := urlEncode infoHash, urlPeerId := urlEncode peerId, port
          compact }
  else .error .utf8Error

def AnnounceRequestHttp.parameters (request : AnnounceRequestHttp) (stats : TorrentStats) :
    Bytes :=
  fromStr "info_hash=" ++ request.urlInfoHash ++ fromStr "&peer_id=" ++ request.urlPeerId ++
    fromStr "&port=" ++ format request.port.toNat ++
    fromStr "&uploaded=" ++ format stats.uploaded.toNat ++
    fromStr "&downloaded=" ++ format stats.downloaded.toNat ++
    fromStr "&left=" ++ format stats.left.toNat ++
    fromStr "&compact=" ++ [if request.compact then 49 else 48]

variable (crate : HttpCrate)

def AnnounceRequestHttp.buildUrl (request : AnnounceRequestHttp) (stats : TorrentStats) :
    Except TrackerError crate.Uri :=
  match crate.parse request.tracker with
  | none => .error .invalidUri
  | some uri =>
      let uriParts := crate.intoParts uri
      let path := (uriParts.pathAndQuery.map crate.path).getD (fromStr "/")
      -- Whether the path holds a question mark decides the delimiter.
      let delimiter := if path.contains 63 then fromStr "&" else fromStr "?"
      match crate.tryFrom (path ++ delimiter ++ request.parameters stats) with
      | none => .error .invalidUri
      | some pathAndQuery =>
          match crate.fromParts { uriParts with pathAndQuery := some pathAndQuery } with
          | none => .error .invalidUriParts
          | some url => .ok url

end Requests

structure AnnounceResponseHttp where
  interval : Nat
  peers : List PeerIp
  deriving DecidableEq

def AnnounceResponseHttp.decode (b : Bencode) :
    Except BencodeDecodableError AnnounceResponseHttp := do
  let dict ← getStruct b
  let interval ← getU64 (← getStructValue "interval" dict)
  let peersBytes ← getStr (← getStructValue "peers" dict)
  let length := peersBytes.length
  if length % 6 ≠ 0 then throw (.other s!"Peer data length {length} is not a multiple of 6.")
  let peers ← collectPeers (.other sliceFault) peersBytes
  return { interval, peers }

structure TrackerHttp where
  request : AnnounceRequestHttp
  lastAnnounce : Nat
  response : AnnounceResponseHttp

structure Poll where
  checkedAt : Nat
  announced : Except TrackerError Bencode
  announcedAt : Nat

section Client

variable (poll : Poll)

def TrackerHttp.announce (tracker : TrackerHttp) :
    TrackerHttp × List Contact × Except TrackerError Bencode :=
  match poll.announced with
  | .error reason => (tracker, [.announce], .error reason)
  | .ok response => ({ tracker with lastAnnounce := poll.announcedAt }, [.announce], .ok response)

def TrackerHttp.due (tracker : TrackerHttp) : Bool :=
  asSecs (elapsed poll.checkedAt tracker.lastAnnounce) > tracker.response.interval

/-- The time of the announce is set before its answer is decoded. -/
def TrackerHttp.getPeers (tracker : TrackerHttp) :
    TrackerHttp × List Contact × Except TrackerError (List PeerIp) :=
  if tracker.due poll then
    match tracker.announce poll with
    | (announced, contacts, .error reason) => (announced, contacts, .error reason)
    | (announced, contacts, .ok responseBencode) =>
        match AnnounceResponseHttp.decode responseBencode with
        | .error reason => (announced, contacts, .error (.bencodeError reason))
        | .ok response => ({ announced with response }, contacts, .ok response.peers)
  else (tracker, [], .ok tracker.response.peers)

def TrackerHttp.new (tracker : Bytes) (infoHash peerId : Hash) (port : UInt16)
    (announced : Except TrackerError Bencode) (lastAnnounce : Nat) :
    Except TrackerError TrackerHttp := do
  let request ← AnnounceRequestHttp.new tracker infoHash peerId port true
  let responseBencode ← announced
  let response ← (AnnounceResponseHttp.decode responseBencode).mapError .bencodeError
  return { request, lastAnnounce, response }

end Client

end MotteSeed.HttpTracker
