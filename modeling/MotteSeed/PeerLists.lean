import MotteSeed.UdpTracker
import MotteSeed.HttpTracker

/-! The peers in a tracker's answer. An announce response of the UDP protocol is its
header and the compact form of its peers, which the parser reads back exactly; the
HTTP answer holds the same compact form. The receive buffer is smaller than a datagram
may be. -/
namespace MotteSeed.PeerLists
open Toolkit Toolkit.Checked PeerWire TorrentMeta PieceStore Tracker UdpTracker HttpTracker

section Layout

def headerBytes (response : AnnounceResponseUdp) : Bytes :=
  BigEndian.encode 4 response.action.toNat ++ BigEndian.encode 4 response.transactionId.toNat ++
    BigEndian.encode 4 response.interval.toNat ++ BigEndian.encode 4 response.leechers.toNat ++
    BigEndian.encode 4 response.seeders.toNat

def replyBytes (response : AnnounceResponseUdp) : Bytes :=
  headerBytes response ++ peerBytes response.peers

theorem header_bytes_length (response : AnnounceResponseUdp) :
    (headerBytes response).length = 20 := by
  simp [headerBytes]

theorem reply_bytes_length (response : AnnounceResponseUdp) :
    (replyBytes response).length = 20 + 6 * response.peers.length := by
  rw [replyBytes, List.length_append, header_bytes_length, peer_bytes_length, Nat.mul_comm]

theorem u32_field_put (front rest : Bytes) (value : UInt32) :
    u32Field (front ++ (BigEndian.encode 4 value.toNat ++ rest)) front.length = value := by
  rw [u32Field, BigEndian.decode_field front rest 4 value.toNat value.toNat_lt,
    UInt32.ofNat_toNat]

theorem u64_field_put (front rest : Bytes) (value : UInt64) :
    u64Field (front ++ (BigEndian.encode 8 value.toNat ++ rest)) front.length = value := by
  rw [u64Field, BigEndian.decode_field front rest 8 value.toNat value.toNat_lt,
    UInt64.ofNat_toNat]

theorem u32_field_encode (data : Bytes) (index : Nat) (inside : index + 4 ≤ data.length) :
    BigEndian.encode 4 (u32Field data index).toNat ++ data.drop (index + 4) =
      data.drop index := by
  rw [u32Field, UInt32.toNat_ofNat_of_lt' (BigEndian.decode_field_lt data index 4)]
  exact BigEndian.encode_field data index 4 inside

theorem u64_field_encode (data : Bytes) (index : Nat) (inside : index + 8 ≤ data.length) :
    BigEndian.encode 8 (u64Field data index).toNat ++ data.drop (index + 8) =
      data.drop index := by
  rw [u64Field, UInt64.toNat_ofNat_of_lt' (BigEndian.decode_field_lt data index 8)]
  exact BigEndian.encode_field data index 8 inside

theorem from_reply_bytes (response : AnnounceResponseUdp) :
    AnnounceResponseUdp.fromBytes (replyBytes response) = .ok response := by
  obtain ⟨action, transactionId, interval, leechers, seeders, peers⟩ := response
  have size := reply_bytes_length ⟨action, transactionId, interval, leechers, seeders, peers⟩
  have body : (replyBytes ⟨action, transactionId, interval, leechers, seeders, peers⟩).drop 20 =
      peerBytes peers := List.drop_left' (header_bytes_length _)
  have whole : (peerBytes peers).length % 6 = 0 := by
    rw [peer_bytes_length, Nat.mul_mod_left]
  -- Each field stands behind the ones before it.
  have first := u32_field_put [] (BigEndian.encode 4 transactionId.toNat ++
    (BigEndian.encode 4 interval.toNat ++ (BigEndian.encode 4 leechers.toNat ++
      (BigEndian.encode 4 seeders.toNat ++ peerBytes peers)))) action
  have second := u32_field_put (BigEndian.encode 4 action.toNat)
    (BigEndian.encode 4 interval.toNat ++ (BigEndian.encode 4 leechers.toNat ++
      (BigEndian.encode 4 seeders.toNat ++ peerBytes peers))) transactionId
  have third := u32_field_put
    (BigEndian.encode 4 action.toNat ++ BigEndian.encode 4 transactionId.toNat)
    (BigEndian.encode 4 leechers.toNat ++
      (BigEndian.encode 4 seeders.toNat ++ peerBytes peers)) interval
  have fourth := u32_field_put
    (BigEndian.encode 4 action.toNat ++ BigEndian.encode 4 transactionId.toNat ++
      BigEndian.encode 4 interval.toNat)
    (BigEndian.encode 4 seeders.toNat ++ peerBytes peers) leechers
  have fifth := u32_field_put
    (BigEndian.encode 4 action.toNat ++ BigEndian.encode 4 transactionId.toNat ++
      BigEndian.encode 4 interval.toNat ++ BigEndian.encode 4 leechers.toNat)
    (peerBytes peers) seeders
  simp only [List.append_assoc, List.nil_append, List.length_nil, List.length_append,
    BigEndian.encode_length, Nat.reduceAdd] at first second third fourth fifth
  rw [AnnounceResponseUdp.fromBytes, if_neg (by omega)]
  simp only [body, whole, ne_eq, not_true, if_false, collect_peers_exact, Except.map]
  simp only [replyBytes, headerBytes, List.append_assoc, first, second, third, fourth, fifth]

theorem reply_bytes_exists (data : Bytes) (header : 20 ≤ data.length)
    (whole : 6 ∣ data.length - 20) : ∃ response, replyBytes response = data := by
  obtain ⟨peers, same⟩ := peer_bytes_exists (data.drop 20) (by rwa [List.length_drop])
  refine ⟨⟨u32Field data 0, u32Field data 4, u32Field data 8, u32Field data 12,
    u32Field data 16, peers⟩, ?_⟩
  simp only [replyBytes, headerBytes, List.append_assoc, same]
  rw [u32_field_encode data 16 (by omega), u32_field_encode data 12 (by omega),
    u32_field_encode data 8 (by omega), u32_field_encode data 4 (by omega),
    u32_field_encode data 0 (by omega), List.drop_zero]

theorem from_bytes_refuses (data : Bytes) (wrong : ¬ (20 ≤ data.length ∧ 6 ∣ data.length - 20)) :
    ∃ reason, AnnounceResponseUdp.fromBytes data = .error (.other reason) := by
  unfold AnnounceResponseUdp.fromBytes
  by_cases short : data.length < 20
  · exact ⟨_, if_pos short⟩
  · rw [if_neg short]
    have ragged : (data.drop 20).length % 6 ≠ 0 := by
      rw [List.length_drop]
      exact fun zero => wrong ⟨Nat.le_of_not_lt short, Nat.dvd_of_mod_eq_zero zero⟩
    exact ⟨_, if_pos ragged⟩

/-- The parser accepts exactly the replies, each as the response it was made from. -/
theorem from_bytes_ok_iff (data : Bytes) (response : AnnounceResponseUdp) :
    AnnounceResponseUdp.fromBytes data = .ok response ↔ replyBytes response = data := by
  constructor
  · intro accepted
    by_cases right : 20 ≤ data.length ∧ 6 ∣ data.length - 20
    · obtain ⟨made, rfl⟩ := reply_bytes_exists data right.1 right.2
      rw [from_reply_bytes] at accepted
      rw [Except.ok.inj accepted]
    · obtain ⟨reason, refused⟩ := from_bytes_refuses data right
      rw [refused] at accepted
      cases accepted
  · rintro rfl
    exact from_reply_bytes response

end Layout

section Buffer

theorem recv_from_fits (datagram : Bytes) (fits : datagram.length ≤ 1024) :
    recvFrom datagram = datagram := List.take_of_length_le fits

theorem recv_reply_fits (response : AnnounceResponseUdp) (fits : response.peers.length ≤ 167) :
    recvAnnounceResponse (replyBytes response) = .ok response := by
  have size := reply_bytes_length response
  rw [recvAnnounceResponse, recv_from_fits _ (by omega), if_neg (by omega), from_reply_bytes]

theorem recv_reply_cut (response : AnnounceResponseUdp) (more : 168 ≤ response.peers.length) :
    recvAnnounceResponse (replyBytes response) = .error (.other "Invalid peer data length") := by
  have size := reply_bytes_length response
  have kept : (recvFrom (replyBytes response)).length = 1024 := by
    rw [recvFrom, List.length_take]
    omega
  have ragged : ((recvFrom (replyBytes response)).drop 20).length % 6 ≠ 0 := by
    rw [List.length_drop, kept]
    decide
  rw [recvAnnounceResponse, if_neg (by omega), AnnounceResponseUdp.fromBytes, if_neg (by omega)]
  exact if_pos ragged

/-- A well-formed announce response is received as it is exactly up to 167 peers. -/
theorem recv_reply_iff (response : AnnounceResponseUdp) :
    recvAnnounceResponse (replyBytes response) = .ok response ↔
      response.peers.length ≤ 167 := by
  constructor
  · intro received
    by_contra more
    rw [recv_reply_cut response (by omega)] at received
    cases received
  · exact recv_reply_fits response

def crowd (count : Nat) : AnnounceResponseUdp :=
  ⟨1, 7, 1800, 3, 4, List.replicate count #v[10, 0, 0, 1, 26, 225]⟩

theorem large_reply_lost :
    (replyBytes (crowd 168)).length ≤ 65507 ∧
      recvAnnounceResponse (replyBytes (crowd 168)) ≠ .ok (crowd 168) := by
  have count : (crowd 168).peers.length = 168 := List.length_replicate
  refine ⟨by rw [reply_bytes_length, count]; decide, fun received => ?_⟩
  rw [recv_reply_cut (crowd 168) (Nat.le_of_eq count.symm)] at received
  cases received

end Buffer

section Agreement

theorem decode_entries (entries : Dict) (interval : Int) (bytes : Bytes)
    (range : 0 ≤ interval ∧ interval < 2 ^ 64)
    (first : entries.lookup (fromStr "interval") = some (.number interval))
    (second : entries.lookup (fromStr "peers") = some (.byteString bytes)) :
    AnnounceResponseHttp.decode (.dict entries) =
      let length := bytes.length
      if length % 6 ≠ 0 then
        .error (.other s!"Peer data length {length} is not a multiple of 6.")
      else (collectPeers (.other sliceFault) bytes).map fun peers =>
        { interval := interval.toNat, peers } := by
  have number : getStructValue "interval" entries = .ok (.number interval) := by
    rw [getStructValue, getStructValueFromBytestring, first]
  have list : getStructValue "peers" entries = .ok (.byteString bytes) := by
    rw [getStructValue, getStructValueFromBytestring, second]
  simp only [AnnounceResponseHttp.decode, getStruct, number, list, getU64, if_pos range, getStr,
    bind, Except.bind]
  by_cases ragged : bytes.length % 6 ≠ 0
  · rw [if_pos ragged, if_pos ragged]
    rfl
  · rw [if_neg ragged, if_neg ragged]
    cases collectPeers (.other sliceFault : BencodeDecodableError) bytes with
    | error reason => rfl
    | ok peers => rfl

theorem decode_ok_iff (entries : Dict) (interval : Int) (bytes : Bytes)
    (range : 0 ≤ interval ∧ interval < 2 ^ 64)
    (first : entries.lookup (fromStr "interval") = some (.number interval))
    (second : entries.lookup (fromStr "peers") = some (.byteString bytes))
    (response : AnnounceResponseHttp) :
    AnnounceResponseHttp.decode (.dict entries) = .ok response ↔
      response.interval = interval.toNat ∧ peerBytes response.peers = bytes := by
  rw [decode_entries entries interval bytes range first second]
  constructor
  · intro accepted
    by_cases ragged : bytes.length % 6 ≠ 0
    · rw [if_pos ragged] at accepted
      cases accepted
    · obtain ⟨peers, rfl⟩ := peer_bytes_exists bytes (Nat.dvd_of_mod_eq_zero (by omega))
      rw [if_neg ragged, collect_peers_exact] at accepted
      obtain rfl := Except.ok.inj accepted
      exact ⟨rfl, rfl⟩
  · rintro ⟨same, rfl⟩
    have whole : ¬ (peerBytes response.peers).length % 6 ≠ 0 := by
      rw [peer_bytes_length, Nat.mul_mod_left]
      exact fun absurd => absurd rfl
    rw [if_neg whole, collect_peers_exact, ← same]
    rfl

/-- The UDP parser accepts a datagram exactly if it is twenty bytes and whole peers, and
loses nothing of it. The HTTP decoder accepts a peer string exactly if it is whole
peers, and reads the peers that the UDP parser reads behind any header. -/
theorem peer_lists_agree :
    (∀ data, ((∃ response, AnnounceResponseUdp.fromBytes data = .ok response) ↔
        20 ≤ data.length ∧ 6 ∣ data.length - 20) ∧
      ∀ response, AnnounceResponseUdp.fromBytes data = .ok response →
        replyBytes response = data) ∧
    ∀ (entries : Dict) (interval : Int) (bytes : Bytes), 0 ≤ interval ∧ interval < 2 ^ 64 →
      entries.lookup (fromStr "interval") = some (.number interval) →
      entries.lookup (fromStr "peers") = some (.byteString bytes) →
      ((∃ response, AnnounceResponseHttp.decode (.dict entries) = .ok response) ↔
        6 ∣ bytes.length) ∧
      ∀ response, AnnounceResponseHttp.decode (.dict entries) = .ok response →
        ∀ header : Bytes, header.length = 20 → ∃ other,
          AnnounceResponseUdp.fromBytes (header ++ bytes) = .ok other ∧
            other.peers = response.peers := by
  refine ⟨fun data => ⟨⟨?_, ?_⟩, fun response => (from_bytes_ok_iff data response).mp⟩,
    fun entries interval bytes range first second => ⟨⟨?_, ?_⟩, ?_⟩⟩
  · rintro ⟨response, accepted⟩
    rw [← (from_bytes_ok_iff data response).mp accepted, reply_bytes_length]
    exact ⟨Nat.le_add_right _ _, by rw [Nat.add_sub_cancel_left]; exact Nat.dvd_mul_right _ _⟩
  · rintro ⟨header, whole⟩
    obtain ⟨response, same⟩ := reply_bytes_exists data header whole
    exact ⟨response, (from_bytes_ok_iff data response).mpr same⟩
  · rintro ⟨response, accepted⟩
    obtain ⟨-, rfl⟩ :=
      (decode_ok_iff entries interval bytes range first second response).mp accepted
    rw [peer_bytes_length]
    exact Nat.dvd_mul_left _ _
  · intro whole
    obtain ⟨peers, same⟩ := peer_bytes_exists bytes whole
    exact ⟨⟨interval.toNat, peers⟩,
      (decode_ok_iff entries interval bytes range first second _).mpr ⟨rfl, same⟩⟩
  · intro response accepted header size
    obtain ⟨-, rfl⟩ :=
      (decode_ok_iff entries interval bytes range first second response).mp accepted
    have length := peer_bytes_length response.peers
    obtain ⟨other, same⟩ := reply_bytes_exists (header ++ peerBytes response.peers)
      (by rw [List.length_append]; omega)
      (by rw [List.length_append, size, Nat.add_sub_cancel_left, length]
          exact Nat.dvd_mul_left _ _)
    refine ⟨other, (from_bytes_ok_iff _ other).mpr same, ?_⟩
    -- Both headers are twenty bytes, so the peers behind them have the same bytes.
    have rest := (List.append_inj same (by rw [header_bytes_length, size])).2
    have read := collect_peers_exact () other.peers
    rw [rest, collect_peers_exact] at read
    exact (Except.ok.inj read).symm

def onePeerDict : Dict :=
  [(fromStr "interval", .number 1800),
    (fromStr "peers", .byteString [10, 0, 0, 1, 26, 225])]

theorem peer_lists_agree_one :
    ((∃ response, AnnounceResponseHttp.decode (.dict onePeerDict) = .ok response) ↔
      6 ∣ ([10, 0, 0, 1, 26, 225] : Bytes).length) ∧
    ∀ response, AnnounceResponseHttp.decode (.dict onePeerDict) = .ok response →
      ∀ header : Bytes, header.length = 20 → ∃ other,
        AnnounceResponseUdp.fromBytes (header ++ [10, 0, 0, 1, 26, 225]) = .ok other ∧
          other.peers = response.peers :=
  peer_lists_agree.2 onePeerDict 1800 [10, 0, 0, 1, 26, 225] (by decide) rfl rfl

end Agreement

end MotteSeed.PeerLists
