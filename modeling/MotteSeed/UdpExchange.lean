import MotteSeed.PeerLists

/-! The two UDP exchanges over the queue of the socket, in any order of arrivals, reads
and timeouts and for any transaction ids. Each attempt takes one datagram: whatever is
returned is the reply to the current attempt, and a reply is found exactly in front. -/
namespace MotteSeed.UdpExchange
open Toolkit Toolkit.Exchange Toolkit.Runs PeerWire TorrentMeta PieceStore Tracker UdpTracker
open PeerLists

section Replies

def connectionBytes (response : ConnectionResponse) : Bytes :=
  BigEndian.encode 4 response.action.toNat ++ BigEndian.encode 4 response.transactionId.toNat ++
    BigEndian.encode 8 response.connectionId.toNat

def connectReply (transactionId : UInt32) (connectionId : UInt64) : Bytes :=
  connectionBytes ⟨0, transactionId, connectionId⟩

theorem connection_bytes_length (response : ConnectionResponse) :
    (connectionBytes response).length = 16 := by
  simp [connectionBytes]

theorem connection_from_bytes (data : Vector UInt8 16) (response : ConnectionResponse)
    (same : connectionBytes response = data.toList) :
    ConnectionResponse.fromBytes data = response := by
  obtain ⟨action, transactionId, connectionId⟩ := response
  have first := u32_field_put [] (BigEndian.encode 4 transactionId.toNat ++
    BigEndian.encode 8 connectionId.toNat) action
  have second := u32_field_put (BigEndian.encode 4 action.toNat)
    (BigEndian.encode 8 connectionId.toNat) transactionId
  have third := u64_field_put
    (BigEndian.encode 4 action.toNat ++ BigEndian.encode 4 transactionId.toNat) [] connectionId
  simp only [List.append_assoc, List.nil_append, List.append_nil, List.length_nil,
    List.length_append, BigEndian.encode_length, Nat.reduceAdd] at first second third
  simp only [ConnectionResponse.fromBytes, ← same, connectionBytes, List.append_assoc, first,
    second, third]

theorem connection_bytes_exists (data : Vector UInt8 16) :
    ∃ response, connectionBytes response = data.toList := by
  have size : data.toList.length = 16 := by simp
  refine ⟨⟨u32Field data.toList 0, u32Field data.toList 4, u64Field data.toList 8⟩, ?_⟩
  have rest : data.toList.drop 16 = [] := List.drop_eq_nil_of_le (Nat.le_of_eq size)
  have third := u64_field_encode data.toList 8 (by omega)
  rw [rest, List.append_nil] at third
  simp only [connectionBytes, List.append_assoc]
  rw [third, u32_field_encode data.toList 4 (by omega), u32_field_encode data.toList 0 (by omega),
    List.drop_zero]

theorem recv_conn_id_iff (datagram : Bytes) (response : ConnectionResponse) :
    recvConnIdResponse datagram = .ok response ↔ connectionBytes response = datagram := by
  constructor
  · intro received
    by_cases size : (recvFrom datagram).length = 16
    · have whole : recvFrom datagram = datagram := by
        apply recv_from_fits
        rw [recvFrom, List.length_take] at size
        omega
      obtain ⟨data, same⟩ := to_list_exists 16 datagram (by rw [← size, whole])
      rw [recvConnIdResponse, if_neg (not_not.mpr size), whole, ← same] at received
      rw [List.take_of_length_le (by simp), to_array_to_list] at received
      obtain ⟨made, bytes⟩ := connection_bytes_exists data
      obtain rfl := (connection_from_bytes data made bytes).symm.trans (Except.ok.inj received)
      rw [bytes, same]
    · rw [recvConnIdResponse, if_pos size] at received
      cases received
  · rintro rfl
    have size := connection_bytes_length response
    have whole := recv_from_fits (connectionBytes response) (by omega)
    obtain ⟨data, same⟩ := to_list_exists 16 (connectionBytes response) size
    have array : toArray 16 (connectionBytes response) = some data := by
      rw [← same, to_array_to_list]
    rw [recvConnIdResponse, whole, if_neg (not_not.mpr size),
      List.take_of_length_le (Nat.le_of_eq size), array]
    exact congrArg Except.ok (connection_from_bytes data response same.symm)

theorem recv_announce_iff (datagram : Bytes) (response : AnnounceResponseUdp) :
    recvAnnounceResponse datagram = .ok response ↔ replyBytes response = recvFrom datagram := by
  rw [← from_bytes_ok_iff]
  by_cases short : (recvFrom datagram).length < 20
  · rw [recvAnnounceResponse, if_pos short, AnnounceResponseUdp.fromBytes, if_pos short]
    exact iff_of_false (fun same => by cases same) (fun same => by cases same)
  · rw [recvAnnounceResponse, if_neg short]

theorem announce_receive (connectionId : UInt64) (request : AnnounceRequestUdp)
    (stats : Nat → TorrentStats) (datagram : Bytes) :
    (announce connectionId request stats).receive datagram = recvAnnounceResponse datagram := rfl

theorem connect_matched_iff (transactionId : UInt32) (response : ConnectionResponse) :
    getConnectionId.matched transactionId response = true ↔
      response = ⟨0, transactionId, response.connectionId⟩ := by
  obtain ⟨action, other, connectionId⟩ := response
  simp [getConnectionId]

theorem announce_matched_iff (connectionId : UInt64) (request : AnnounceRequestUdp)
    (stats : Nat → TorrentStats) (transactionId : UInt32) (response : AnnounceResponseUdp) :
    (announce connectionId request stats).matched transactionId response = true ↔
      response.action = 1 ∧ response.transactionId = transactionId := by
  simp [announce]

end Replies

section Exchanges

/-- From here the exchange returns this result: the read that is possible now returns
it, and before the read nothing but arrivals can happen. -/
def Returns {Reply Value : Type} (protocol : Protocol UInt32 Bytes Reply Value TrackerError)
    (ids : Nat → UInt32) (attempt : Nat) (queue : List Bytes) (value : Value) : Prop :=
  (∃ rest, (protocol.machine ids).step ⟨queue, .waiting attempt⟩ .read =
    some (⟨rest, .returned (.ok value)⟩, [])) ∧
  ∀ future finish log,
    run (protocol.machine ids) ⟨queue, .waiting attempt⟩ future = some (finish, log) →
    finish.phase = .returned (.ok value) ∨
      (finish.phase = .waiting attempt ∧ ∀ event ∈ future, ∃ other, event = Event.arrive other)

/-- A connection id that is returned was read from the reply to the current attempt,
whose request is the last that was sent. -/
def ConnectSound (ids : Nat → UInt32) : Prop :=
  ∀ queue finish events log connectionId,
    run (getConnectionId.machine ids) (getConnectionId.initial queue) events =
      some (finish, log) →
    finish.phase = .returned (.ok connectionId) →
    ∃ past later attempt rest, events = past ++ .read :: later ∧ attempt < maxRetries ∧
      run (getConnectionId.machine ids) (getConnectionId.initial queue) past =
        some (⟨connectReply (ids attempt) connectionId :: rest, .waiting attempt⟩,
          getConnectionId.sent ids (attempt + 1))

def AnnounceSound (exchange : Protocol UInt32 Bytes AnnounceResponseUdp AnnounceResponseUdp
    TrackerError) (ids : Nat → UInt32) : Prop :=
  ∀ queue finish events log response,
    run (exchange.machine ids) (exchange.initial queue) events = some (finish, log) →
    finish.phase = .returned (.ok response) →
    response.action = 1 ∧ ∃ past later attempt datagram rest,
      events = past ++ .read :: later ∧ attempt < maxRetries ∧
      response.transactionId = ids attempt ∧ replyBytes response = recvFrom datagram ∧
      run (exchange.machine ids) (exchange.initial queue) past =
        some (⟨datagram :: rest, .waiting attempt⟩, exchange.sent ids (attempt + 1))

variable (ids : Nat → UInt32)

theorem connect_sound : ConnectSound ids := by
  intro queue finish events log connectionId ran returned
  obtain ⟨past, later, attempt, datagram, rest, reply, split, reached, bound, received, fits,
    rfl⟩ := sound getConnectionId ids queue finish events log connectionId ran returned
  refine ⟨past, later, attempt, rest, split, bound, ?_⟩
  have bytes := (recv_conn_id_iff datagram reply).mp received
  rw [(connect_matched_iff _ _).mp fits] at bytes
  rw [reached, ← bytes]
  rfl

theorem announce_sound (connectionId : UInt64) (request : AnnounceRequestUdp)
    (stats : Nat → TorrentStats) : AnnounceSound (announce connectionId request stats) ids := by
  intro queue finish events log response ran returned
  obtain ⟨past, later, attempt, datagram, rest, reply, split, reached, bound, received, fits,
    rfl⟩ := sound (announce connectionId request stats) ids queue finish events log response ran
      returned
  obtain ⟨action, transaction⟩ := (announce_matched_iff _ _ _ _ _).mp fits
  exact ⟨action, past, later, attempt, datagram, rest, split, bound, transaction,
    (recv_announce_iff datagram response).mp received, reached⟩

theorem first_returns {Reply Value : Type}
    (protocol : Protocol UInt32 Bytes Reply Value TrackerError) (attempt : Nat)
    (datagram : Bytes) (rest : List Bytes) (reply : Reply)
    (received : protocol.receive datagram = .ok reply)
    (fits : protocol.matched (ids attempt) reply = true) :
    Returns protocol ids attempt (datagram :: rest) (protocol.value reply) := by
  obtain ⟨read, follows⟩ :=
    first_reply_returned protocol ids attempt datagram rest reply received fits
  exact ⟨⟨rest, read⟩, follows⟩

/-- Both exchanges return only the reply to the current attempt. They return it when it
is the first datagram in the queue while its attempt waits, whatever follows; a reply
to something else in front costs the attempt. -/
theorem exchanges_take_first (connectionId : UInt64) (request : AnnounceRequestUdp)
    (stats : Nat → TorrentStats) :
    ConnectSound ids ∧ AnnounceSound (announce connectionId request stats) ids ∧
    (∀ attempt rest connection,
      Returns getConnectionId ids attempt (connectReply (ids attempt) connection :: rest)
        connection) ∧
    (∀ attempt rest response, response.action = 1 → response.transactionId = ids attempt →
      response.peers.length ≤ 167 →
      Returns (announce connectionId request stats) ids attempt (replyBytes response :: rest)
        response) ∧
    (∀ attempt rest response, ¬ (response.action = 0 ∧ response.transactionId = ids attempt) →
      (getConnectionId.machine ids).step ⟨connectionBytes response :: rest, .waiting attempt⟩
        .read = some (⟨rest, getConnectionId.start (attempt + 1)⟩, [])) ∧
    ∀ attempt rest response, ¬ (response.action = 1 ∧ response.transactionId = ids attempt) →
      response.peers.length ≤ 167 →
      ((announce connectionId request stats).machine ids).step
        ⟨replyBytes response :: rest, .waiting attempt⟩ .read =
          some (⟨rest, (announce connectionId request stats).start (attempt + 1)⟩, []) := by
  refine ⟨connect_sound ids, announce_sound ids connectionId request stats, ?_, ?_, ?_, ?_⟩
  · intro attempt rest connection
    exact first_returns ids getConnectionId attempt _ rest ⟨0, ids attempt, connection⟩
      ((recv_conn_id_iff _ _).mpr rfl) ((connect_matched_iff _ _).mpr rfl)
  · intro attempt rest response action transaction small
    exact first_returns ids (announce connectionId request stats) attempt _ rest response
      ((announce_receive _ _ _ _).trans (recv_reply_fits response small))
      ((announce_matched_iff _ _ _ _ _).mpr ⟨action, transaction⟩)
  · intro attempt rest response other
    apply other_reply_skipped getConnectionId ids attempt (connectionBytes response) rest
      response ((recv_conn_id_iff _ _).mpr rfl)
    exact decide_eq_false other
  · intro attempt rest response other small
    apply other_reply_skipped (announce connectionId request stats) ids attempt
      (replyBytes response) rest response
      ((announce_receive _ _ _ _).trans (recv_reply_fits response small))
    exact decide_eq_false other

end Exchanges

section Shift

def DeliversAnywhere (ids : Nat → UInt32) : Prop :=
  ∀ queue past held attempt log connectionId future finish later result,
    run (getConnectionId.machine ids) (getConnectionId.initial queue) past =
      some (⟨held, .waiting attempt⟩, log) →
    connectReply (ids attempt) connectionId ∈ held →
    run (getConnectionId.machine ids) ⟨held, .waiting attempt⟩ future = some (finish, later) →
    finish.phase = .returned result → result = .ok connectionId

def countedIds (attempt : Nat) : UInt32 := UInt32.ofNat attempt + 1

/-- A late reply lies in front of the matching one. Each attempt reads the reply before
its own, and the third one waits in vain. -/
theorem late_reply_shifts : ¬ DeliversAnywhere countedIds := by
  intro delivers
  have result := delivers [connectReply 9 4] [.send, .arrive (connectReply 1 5)]
    [connectReply 9 4, connectReply 1 5] 0 (getConnectionId.sent countedIds 1) 5
    [.read, .send, .read, .send, .expire]
    ⟨[], .returned (.error (.other "Max Retries Exceeded"))⟩
    [createConnectRequest 2, createConnectRequest 3] _ rfl
    (List.mem_cons_of_mem _ List.mem_cons_self) rfl rfl
  cases result

end Shift

end MotteSeed.UdpExchange
