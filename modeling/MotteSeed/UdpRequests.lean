import MotteSeed.UdpExchange

/-! The datagrams that `tracker_udp.rs` sends, read as a tracker reads them: each field at
its place. A datagram is one of the two requests exactly when it can be read, so what the
tracker learns is what was put in. -/
namespace MotteSeed.UdpRequests
open Toolkit PeerWire TorrentMeta PieceStore Tracker UdpTracker PeerLists UdpExchange

inductive Request where
  | connect (transactionId : UInt32)
  | announce (connectionId : UInt64) (transactionId : UInt32) (request : AnnounceRequestUdp)
      (stats : TorrentStats)

def requestBytes : Request → Bytes
  | .connect transactionId => createConnectRequest transactionId
  | .announce connectionId transactionId request stats =>
      request.toBytes stats connectionId transactionId

def u16Field (data : Bytes) (index : Nat) : UInt16 :=
  UInt16.ofNat (BigEndian.decode ((data.drop index).take 2))

def hashField (data : Bytes) (index : Nat) : Hash :=
  (toArray 20 (ByteImage.slice data index 20)).getD (Vector.replicate 20 0)

def magic : UInt64 := 0x41727101980

/-- The two requests differ in their length; each has its action behind eight bytes. -/
def readRequest (data : Bytes) : Option Request :=
  if data.length = 16 ∧ u64Field data 0 = magic ∧ u32Field data 8 = 0 then
    some (.connect (u32Field data 12))
  else if data.length = 98 ∧ u32Field data 8 = 1 then
    some (.announce (u64Field data 0) (u32Field data 12)
      { infoHash := hashField data 16, peerId := hashField data 36, event := u32Field data 80
        ipAddress := u32Field data 84, key := u32Field data 88, numWant := u32Field data 92
        port := u16Field data 96 }
      { downloaded := u64Field data 56, uploaded := u64Field data 72, left := u64Field data 64 })
  else none

section Fields

variable (front rest : Bytes)

theorem u32_field_behind (index : Nat) (behind : front.length ≤ index) :
    u32Field (front ++ rest) index = u32Field rest (index - front.length) := by
  rw [u32Field, u32Field, List.drop_append, List.drop_eq_nil_of_le behind, List.nil_append]

theorem u64_field_behind (index : Nat) (behind : front.length ≤ index) :
    u64Field (front ++ rest) index = u64Field rest (index - front.length) := by
  rw [u64Field, u64Field, List.drop_append, List.drop_eq_nil_of_le behind, List.nil_append]

theorem u16_field_behind (index : Nat) (behind : front.length ≤ index) :
    u16Field (front ++ rest) index = u16Field rest (index - front.length) := by
  rw [u16Field, u16Field, List.drop_append, List.drop_eq_nil_of_le behind, List.nil_append]

theorem hash_field_behind (index : Nat) (behind : front.length ≤ index) :
    hashField (front ++ rest) index = hashField rest (index - front.length) := by
  rw [hashField, hashField, ByteImage.slice, ByteImage.slice, List.drop_append,
    List.drop_eq_nil_of_le behind, List.nil_append]

theorem decode_first (width value : Nat) :
    BigEndian.decode ((BigEndian.encode width value ++ rest).take width) =
      value % 256 ^ width := by
  rw [List.take_left' (BigEndian.encode_length width value), BigEndian.decode_encode]

theorem u32_field_first (value : Nat) :
    u32Field (BigEndian.encode 4 value ++ rest) 0 = UInt32.ofNat value := by
  rw [u32Field, List.drop_zero, decode_first]
  exact UInt32.ofNat_mod_size

theorem u64_field_first (value : Nat) :
    u64Field (BigEndian.encode 8 value ++ rest) 0 = UInt64.ofNat value := by
  rw [u64Field, List.drop_zero, decode_first]
  exact UInt64.ofNat_mod_size

theorem u16_field_first (value : Nat) :
    u16Field (BigEndian.encode 2 value ++ rest) 0 = UInt16.ofNat value := by
  rw [u16Field, List.drop_zero, decode_first]
  exact UInt16.ofNat_mod_size

theorem hash_field_first (hash : Hash) : hashField (hash.toList ++ rest) 0 = hash := by
  have whole : ByteImage.slice (hash.toList ++ rest) 0 20 = hash.toList := by
    rw [ByteImage.slice, List.drop_zero, List.take_left' (by simp)]
  rw [hashField, whole, to_array_to_list, Option.getD_some]

theorem u16_field_encode (data : Bytes) (index : Nat) (inside : index + 2 ≤ data.length) :
    BigEndian.encode 2 (u16Field data index).toNat ++ data.drop (index + 2) =
      data.drop index := by
  rw [u16Field, UInt16.toNat_ofNat_of_lt' (BigEndian.decode_field_lt data index 2)]
  exact BigEndian.encode_field data index 2 inside

theorem hash_field_encode (data : Bytes) (index : Nat) (inside : index + 20 ≤ data.length) :
    (hashField data index).toList ++ data.drop (index + 20) = data.drop index := by
  have size : (ByteImage.slice data index 20).length = 20 := by
    rw [ByteImage.slice, List.length_take, List.length_drop]
    omega
  obtain ⟨hash, same⟩ := to_list_exists 20 (ByteImage.slice data index 20) size
  rw [hashField, ← same, to_array_to_list, Option.getD_some, same, ByteImage.slice,
    ← List.drop_drop, List.take_append_drop]

end Fields

section Layout

theorem connect_request_length (transactionId : UInt32) :
    (createConnectRequest transactionId).length = 16 := by
  simp [createConnectRequest]

theorem announce_request_length (request : AnnounceRequestUdp) (stats : TorrentStats)
    (connectionId : UInt64) (transactionId : UInt32) :
    (request.toBytes stats connectionId transactionId).length = 98 := by
  simp [AnnounceRequestUdp.toBytes]

theorem connect_request_header (transactionId : UInt32) :
    u64Field (createConnectRequest transactionId) 0 = magic ∧
      u32Field (createConnectRequest transactionId) 8 = 0 ∧
      u32Field (createConnectRequest transactionId) 12 = transactionId := by
  have shape : createConnectRequest transactionId =
      BigEndian.encode 8 magic.toNat ++ (BigEndian.encode 4 0 ++
        (BigEndian.encode 4 transactionId.toNat ++ [])) := by
    simp [createConnectRequest, magic]
  rw [shape, u64_field_first, u32_field_behind _ _ 8 (by simp), u32_field_behind _ _ 12 (by simp),
    BigEndian.encode_length, u32_field_first, u32_field_behind _ _ _ (by simp),
    BigEndian.encode_length, u32_field_first]
  simp

theorem announce_request_layout (request : AnnounceRequestUdp) (stats : TorrentStats)
    (connectionId : UInt64) (transactionId : UInt32) :
    request.toBytes stats connectionId transactionId =
      BigEndian.encode 8 connectionId.toNat ++ (BigEndian.encode 4 1 ++
        (BigEndian.encode 4 transactionId.toNat ++ (request.infoHash.toList ++
        (request.peerId.toList ++ (BigEndian.encode 8 stats.downloaded.toNat ++
        (BigEndian.encode 8 stats.left.toNat ++ (BigEndian.encode 8 stats.uploaded.toNat ++
        (BigEndian.encode 4 request.event.toNat ++ (BigEndian.encode 4 request.ipAddress.toNat ++
        (BigEndian.encode 4 request.key.toNat ++ (BigEndian.encode 4 request.numWant.toNat ++
        (BigEndian.encode 2 request.port.toNat ++ [])))))))))))) := by
  simp only [AnnounceRequestUdp.toBytes, List.append_assoc, List.append_nil]

theorem announce_request_header (request : AnnounceRequestUdp) (stats : TorrentStats)
    (connectionId : UInt64) (transactionId : UInt32) :
    u64Field (request.toBytes stats connectionId transactionId) 0 = connectionId ∧
      u32Field (request.toBytes stats connectionId transactionId) 8 = 1 ∧
      u32Field (request.toBytes stats connectionId transactionId) 12 = transactionId := by
  rw [announce_request_layout]
  refine ⟨?_, ?_, ?_⟩
  · rw [u64_field_first, UInt64.ofNat_toNat]
  · simp (disch := simp) only [u32_field_behind, BigEndian.encode_length, Nat.reduceSub,
      u32_field_first]
    rfl
  · simp (disch := simp) only [u32_field_behind, BigEndian.encode_length, Nat.reduceSub,
      u32_field_first, UInt32.ofNat_toNat]

theorem read_announce (request : AnnounceRequestUdp) (stats : TorrentStats)
    (connectionId : UInt64) (transactionId : UInt32) :
    readRequest (request.toBytes stats connectionId transactionId) =
      some (.announce connectionId transactionId request stats) := by
  have size := announce_request_length request stats connectionId transactionId
  obtain ⟨id, action, transaction⟩ :=
    announce_request_header request stats connectionId transactionId
  rw [readRequest, if_neg (by omega), if_pos ⟨size, action⟩, id, transaction,
    announce_request_layout]
  simp (disch := simp) only [u16_field_behind, u32_field_behind, u64_field_behind,
    hash_field_behind, BigEndian.encode_length, Vector.length_toList, Nat.reduceSub,
    u16_field_first, u32_field_first, u64_field_first, hash_field_first, UInt16.ofNat_toNat,
    UInt32.ofNat_toNat, UInt64.ofNat_toNat]

theorem read_connect (transactionId : UInt32) :
    readRequest (createConnectRequest transactionId) = some (.connect transactionId) := by
  obtain ⟨id, action, transaction⟩ := connect_request_header transactionId
  rw [readRequest, if_pos ⟨connect_request_length transactionId, id, action⟩, transaction]

theorem connect_request_exists (data : Bytes) (size : data.length = 16)
    (id : u64Field data 0 = magic) (action : u32Field data 8 = 0) :
    createConnectRequest (u32Field data 12) = data := by
  have rest : data.drop 16 = [] := List.drop_eq_nil_of_le (Nat.le_of_eq size)
  have third := u32_field_encode data 12 (by omega)
  have second := u32_field_encode data 8 (by omega)
  have first := u64_field_encode data 0 (by omega)
  rw [rest, List.append_nil] at third
  rw [action] at second
  rw [id, List.drop_zero] at first
  calc createConnectRequest (u32Field data 12)
      = BigEndian.encode 8 magic.toNat ++ (BigEndian.encode 4 (0 : UInt32).toNat ++
          BigEndian.encode 4 (u32Field data 12).toNat) := by
        simp [createConnectRequest, magic]
    _ = data := by rw [third, second, first]

theorem announce_request_exists (data : Bytes) (size : data.length = 98)
    (action : u32Field data 8 = 1) (request : AnnounceRequestUdp) (stats : TorrentStats)
    (read : readRequest data =
      some (.announce (u64Field data 0) (u32Field data 12) request stats)) :
    request.toBytes stats (u64Field data 0) (u32Field data 12) = data := by
  rw [readRequest, if_neg (by omega), if_pos ⟨size, action⟩] at read
  obtain ⟨-, -, rfl, rfl⟩ := Request.announce.inj (Option.some.inj read)
  have rest : data.drop 98 = [] := List.drop_eq_nil_of_le (Nat.le_of_eq size)
  have second := u32_field_encode data 8 (by omega)
  rw [action] at second
  rw [announce_request_layout]
  rw [← rest, u16_field_encode data 96 (by omega), u32_field_encode data 92 (by omega),
    u32_field_encode data 88 (by omega), u32_field_encode data 84 (by omega),
    u32_field_encode data 80 (by omega), u64_field_encode data 72 (by omega),
    u64_field_encode data 64 (by omega), u64_field_encode data 56 (by omega),
    hash_field_encode data 36 (by omega), hash_field_encode data 16 (by omega),
    u32_field_encode data 12 (by omega)]
  rw [show BigEndian.encode 4 1 = BigEndian.encode 4 (1 : UInt32).toNat from rfl, second,
    u64_field_encode data 0 (by omega), List.drop_zero]

theorem read_request_sound (data : Bytes) (request : Request)
    (read : readRequest data = some request) : requestBytes request = data := by
  have fields := read
  unfold readRequest at fields
  split at fields
  · rename_i header
    obtain rfl := Option.some.inj fields
    exact connect_request_exists data header.1 header.2.1 header.2.2
  · split at fields
    · rename_i header
      obtain rfl := Option.some.inj fields
      exact announce_request_exists data header.1 header.2 _ _ read
    · cases fields

theorem read_request_bytes (request : Request) :
    readRequest (requestBytes request) = some request := by
  cases request with
  | connect transactionId => exact read_connect transactionId
  | announce connectionId transactionId request stats =>
      exact read_announce request stats connectionId transactionId

end Layout

/-- A tracker that reads the fields at their places learns exactly what was sent, and what
it accepts is what some request is sent as. -/
theorem requests_read_exactly (data : Bytes) (request : Request) :
    readRequest data = some request ↔ requestBytes request = data := by
  constructor
  · exact read_request_sound data request
  · rintro rfl
    exact read_request_bytes request

end MotteSeed.UdpRequests
