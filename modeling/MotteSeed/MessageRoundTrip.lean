import MotteSeed.InboundStream

/-! What a message's serialization reads back as. The parser accepts exactly the
buffers of its arms, the serialization of a message is one of them, and a frame whose
body is a serialized message is therefore read as that message. -/
namespace MotteSeed.MessageRoundTrip
open Toolkit Toolkit.Checked Toolkit.Framing PeerWire PeerConnection InboundStream

theorem parsed_deserialize (profile : Profile) (bytes left : Bytes) (message : Message)
    (parsed : Parsed profile bytes message left) :
    Message.deserialize profile bytes = .ok (message, left) := by
  have four : ¬ bytes.length < 4 := by
    cases parsed <;> omega
  rw [Message.deserialize, if_neg four]
  cases parsed with
  | keepAlive enough zero =>
      rw [zero]
      rfl
  | signal message id len known enough first nonzero kind =>
      rw [first]
      simp only [bind, Except.bind, if_neg nonzero, if_neg (Nat.not_lt.mpr enough), kind]
      simp only [List.mem_cons, List.not_mem_nil, or_false, Prod.mk.injEq] at known
      rcases known with ⟨same, rfl⟩ | ⟨same, rfl⟩ | ⟨same, rfl⟩ | ⟨same, rfl⟩ <;>
        simp only [same] <;> rfl
  | havePiece id len pieceIndex known exact first nonzero kind field =>
      rw [first]
      simp only [bind, Except.bind, if_neg nonzero, exact, kind, known, field]
      rfl
  | bitfield id len known enough first nonzero kind =>
      have positive : 1 ≤ len.toNat := Nat.pos_of_ne_zero fun same =>
        nonzero (UInt32.toNat_inj.mp (by simpa using same))
      have five : ¬ bytes.length < 5 := by omega
      have split : splitOff bytes 5 = .ok (bytes.take 5, bytes.drop 5) := if_pos (by omega)
      rw [first]
      simp only [bind, Except.bind, if_neg nonzero, if_neg five, kind, known,
        sub_exact profile 32 _ _ positive, if_neg (Nat.not_lt.mpr enough), split]
      rfl
  | request id len index begin length known exact first nonzero kind field field' field'' =>
      rw [first]
      simp only [bind, Except.bind, if_neg nonzero, exact, kind, known, field, field', field'']
      rfl
  | piece id len index begin rest known less enough first nonzero kind field field' =>
      have five : ¬ bytes.length < 5 := by omega
      have split : splitOff bytes 13 = .ok (bytes.take 13, bytes.drop 13) := if_pos (by omega)
      rw [first]
      simp only [bind, Except.bind, if_neg nonzero, if_neg five, kind, known, less,
        if_neg (Nat.not_lt.mpr enough), field, field', split]
      rfl
  | cancel id len index begin length known exact first nonzero kind field field' field'' =>
      rw [first]
      simp only [bind, Except.bind, if_neg nonzero, exact, kind, known, field, field', field'']
      rfl
  | port id len number known exact first nonzero kind field =>
      rw [first]
      simp only [bind, Except.bind, if_neg nonzero, exact, kind, known, field]
      rfl

section Fields

theorem u32_at_put (front rest : Bytes) (value : UInt32) :
    u32At (front ++ (BigEndian.encode 4 value.toNat ++ rest)) front.length = .ok value := by
  have room : front.length + 4 ≤ (front ++ (BigEndian.encode 4 value.toNat ++ rest)).length := by
    rw [List.length_append, List.length_append, BigEndian.encode_length]
    omega
  rw [u32At, if_pos room, BigEndian.decode_field front rest 4 value.toNat value.toNat_lt,
    UInt32.ofNat_toNat]

theorem u16_at_put (front rest : Bytes) (value : UInt16) :
    u16At (front ++ (BigEndian.encode 2 value.toNat ++ rest)) front.length = .ok value := by
  have room : front.length + 2 ≤ (front ++ (BigEndian.encode 2 value.toNat ++ rest)).length := by
    rw [List.length_append, List.length_append, BigEndian.encode_length]
    omega
  rw [u16At, if_pos room, BigEndian.decode_field front rest 2 value.toNat value.toNat_lt,
    UInt16.ofNat_toNat]

def header (len : UInt32) (id : UInt8) : Bytes := BigEndian.encode 4 len.toNat ++ [id]

@[simp] theorem header_length (len : UInt32) (id : UInt8) : (header len id).length = 5 := by
  simp [header]

variable (len : UInt32) (id : UInt8)

theorem header_len (payload : Bytes) : u32At (header len id ++ payload) 0 = .ok len := by
  have front := u32_at_put [] (id :: payload) len
  simpa [header] using front

theorem header_id (payload : Bytes) : byteAt (header len id ++ payload) 4 = .ok id := by
  have here : (header len id ++ payload)[4]? = some id := by
    rw [header, List.append_assoc, List.getElem?_append_right (by simp)]
    simp
  rw [byteAt, here]

theorem header_field (front rest : Bytes) (value : UInt32) (index : Nat)
    (here : 5 + front.length = index) :
    u32At (header len id ++ (front ++ (BigEndian.encode 4 value.toNat ++ rest))) index =
      .ok value := by
  subst here
  have field := u32_at_put (header len id ++ front) rest value
  rwa [List.length_append, header_length, List.append_assoc] at field

end Fields

def blockRange (index begin length : UInt32) : Bytes :=
  BigEndian.encode 4 index.toNat ++
    (BigEndian.encode 4 begin.toNat ++ BigEndian.encode 4 length.toNat)

section Shapes

theorem have_shape (pieceIndex : UInt32) :
    (Message.havePiece pieceIndex).serialize =
      header 5 4 ++ BigEndian.encode 4 pieceIndex.toNat := by
  simp [Message.serialize, Message.serializeInto, putU32, putU8, header]

theorem bitfield_shape (bytes : Bytes) :
    (Message.bitfield bytes).serialize = header (1 + UInt32.ofNat bytes.length) 5 ++ bytes := by
  simp [Message.serialize, Message.serializeInto, putU32, putU8, putSlice, header]

theorem request_shape (index begin length : UInt32) :
    (Message.request index begin length).serialize =
      header 13 6 ++ blockRange index begin length := by
  simp [Message.serialize, Message.serializeInto, putU32, putU8, header, blockRange]

theorem piece_shape (index begin : UInt32) (block : Bytes) :
    (Message.piece index begin block).serialize =
      header (9 + UInt32.ofNat block.length) 7 ++ (BigEndian.encode 4 index.toNat ++
        (BigEndian.encode 4 begin.toNat ++ block)) := by
  simp [Message.serialize, Message.serializeInto, putU32, putU8, putSlice, header]

theorem cancel_shape (index begin length : UInt32) :
    (Message.cancel index begin length).serialize =
      header 13 8 ++ blockRange index begin length := by
  simp [Message.serialize, Message.serializeInto, putU32, putU8, header, blockRange]

theorem port_shape (number : UInt16) :
    (Message.port number).serialize = header 3 9 ++ BigEndian.encode 2 number.toNat := by
  simp [Message.serialize, Message.serializeInto, putU32, putU16, putU8, header]

end Shapes

theorem block_range_fields (id : UInt8) (index begin length : UInt32) :
    (header 13 id ++ blockRange index begin length).length = 17 ∧
      u32At (header 13 id ++ blockRange index begin length) 5 = .ok index ∧
      u32At (header 13 id ++ blockRange index begin length) 9 = .ok begin ∧
      u32At (header 13 id ++ blockRange index begin length) 13 = .ok length := by
  have first := header_field 13 id [] (BigEndian.encode 4 begin.toNat ++
    BigEndian.encode 4 length.toNat) index 5 rfl
  have second := header_field 13 id (BigEndian.encode 4 index.toNat)
    (BigEndian.encode 4 length.toNat) begin 9 (by simp)
  have third := header_field 13 id (BigEndian.encode 4 index.toNat ++
    BigEndian.encode 4 begin.toNat) [] length 13 (by simp)
  rw [List.append_nil, List.append_assoc] at third
  exact ⟨by simp [blockRange], first, second, third⟩

theorem signal_parsed (profile : Profile) (message : Message) (id : UInt8)
    (known : (id.toNat, message) ∈ [(0, Message.choke), (1, .unChoke), (2, .interested),
      (3, .notInterested)]) : ∃ left, Parsed profile (header 1 id) message left := by
  have first := header_len 1 id []
  have kind := header_id 1 id []
  rw [List.append_nil] at first kind
  exact ⟨_, .signal message id 1 known (by simp) first (by decide) kind⟩

theorem counted_nonzero (fixed : UInt32) (count : Nat) (fits : fixed.toNat + count < 2 ^ 32)
    (positive : 0 < fixed.toNat) : fixed + UInt32.ofNat count ≠ 0 := by
  intro zero
  have none := congrArg UInt32.toNat zero
  rw [length_word fixed count fits, UInt32.toNat_zero] at none
  omega

theorem bitfield_parsed (profile : Profile) (bytes : Bytes)
    (fits : MessageFits (.bitfield bytes)) :
    ∃ left, Parsed profile (Message.bitfield bytes).serialize (.bitfield bytes) left := by
  have bound : bytes.length + 1 < 2 ^ 32 := fits
  have counted : (1 : UInt32).toNat + bytes.length < 2 ^ 32 := by
    rwa [Nat.add_comm] at bound
  have size := length_word 1 bytes.length counted
  have enough : 5 + ((1 + UInt32.ofNat bytes.length).toNat - 1) ≤
      (header (1 + UInt32.ofNat bytes.length) 5 ++ bytes).length := by
    rw [size, List.length_append, header_length, UInt32.toNat_one]
    omega
  have arm : Parsed profile _ _ _ := .bitfield 5 (1 + UInt32.ofNat bytes.length) rfl enough
    (header_len _ 5 bytes) (counted_nonzero 1 _ counted (by decide)) (header_id _ 5 bytes)
  rw [List.drop_left' (header_length _ 5)] at arm
  exact ⟨_, by rw [bitfield_shape]; exact arm⟩

theorem piece_parsed (profile : Profile) (index begin : UInt32) (block : Bytes)
    (fits : MessageFits (.piece index begin block)) :
    ∃ left, Parsed profile (Message.piece index begin block).serialize
      (.piece index begin block) left := by
  have bound : block.length + 9 < 2 ^ 32 := fits
  have counted : (9 : UInt32).toNat + block.length < 2 ^ 32 := by
    rwa [Nat.add_comm] at bound
  have size := length_word 9 block.length counted
  have shape := piece_shape index begin block
  have first := header_field (9 + UInt32.ofNat block.length) 7 []
    (BigEndian.encode 4 begin.toNat ++ block) index 5 rfl
  have second := header_field (9 + UInt32.ofNat block.length) 7
    (BigEndian.encode 4 index.toNat) block begin 9 (by simp)
  have front : (header (9 + UInt32.ofNat block.length) 7 ++ (BigEndian.encode 4 index.toNat ++
      BigEndian.encode 4 begin.toNat)).length = 13 := by simp
  have less : (profile.sub 32 (9 + UInt32.ofNat block.length).toNat 9 :
      Except (Fault MessageError) Nat) = .ok ((9 + UInt32.ofNat block.length).toNat - 9) :=
    sub_exact profile 32 _ 9 (by rw [size]; exact Nat.le_add_right _ _)
  have enough : 13 + ((9 + UInt32.ofNat block.length).toNat - 9) ≤
      (Message.piece index begin block).serialize.length := by
    rw [size, shape, List.length_append, header_length]
    simp only [List.length_append, BigEndian.encode_length, UInt32.reduceToNat]
    omega
  rw [List.nil_append, ← shape] at first
  rw [← shape] at second
  have arm : Parsed profile _ _ _ := .piece 7 _ index begin _ rfl less enough
    (by rw [shape]; exact header_len _ 7 _) (counted_nonzero 9 _ counted (by decide))
    (by rw [shape]; exact header_id _ 7 _) first second
  have rest : (Message.piece index begin block).serialize.drop 13 = block := by
    rw [shape, ← List.append_assoc, ← List.append_assoc, List.append_assoc (header _ 7),
      List.drop_left' front]
  rw [rest] at arm
  exact ⟨_, arm⟩

theorem serialize_parsed (profile : Profile) (message : Message) (fits : MessageFits message) :
    ∃ left, Parsed profile message.serialize message left := by
  cases message with
  | keepAlive => exact ⟨_, .keepAlive (by decide) (u32_at_put [] [] 0)⟩
  | choke => exact signal_parsed profile .choke 0 (by simp)
  | unChoke => exact signal_parsed profile .unChoke 1 (by simp)
  | interested => exact signal_parsed profile .interested 2 (by simp)
  | notInterested => exact signal_parsed profile .notInterested 3 (by simp)
  | havePiece pieceIndex =>
      have field := header_field 5 4 [] [] pieceIndex 5 rfl
      rw [List.nil_append, List.append_nil] at field
      rw [have_shape]
      exact ⟨_, .havePiece 4 5 pieceIndex rfl (by simp) (header_len 5 4 _) (by decide)
        (header_id 5 4 _) field⟩
  | bitfield bytes => exact bitfield_parsed profile bytes fits
  | request index begin length =>
      obtain ⟨exact, first, second, third⟩ := block_range_fields 6 index begin length
      rw [request_shape]
      exact ⟨_, .request 6 13 index begin length rfl exact (header_len 13 6 _) (by decide)
        (header_id 13 6 _) first second third⟩
  | piece index begin block => exact piece_parsed profile index begin block fits
  | cancel index begin length =>
      obtain ⟨exact, first, second, third⟩ := block_range_fields 8 index begin length
      rw [cancel_shape]
      exact ⟨_, .cancel 8 13 index begin length rfl exact (header_len 13 8 _) (by decide)
        (header_id 13 8 _) first second third⟩
  | port number =>
      have field := u16_at_put (header 3 9) [] number
      rw [List.append_nil, header_length] at field
      rw [port_shape]
      exact ⟨_, .port 9 3 number rfl (by simp) (header_len 3 9 _) (by decide) (header_id 3 9 _)
        field⟩

theorem deserialize_serialize (profile : Profile) (message : Message)
    (fits : MessageFits message) :
    ∃ left, Message.deserialize profile message.serialize = .ok (message, left) := by
  obtain ⟨left, parsed⟩ := serialize_parsed profile message fits
  exact ⟨left, parsed_deserialize profile _ left message parsed⟩

/-- A peer that frames a serialized message once more makes `read_message` return it. -/
theorem read_message_wrapped (profile : Profile) (buf rest : Bytes) (message : Message)
    (fits : MessageFits message) (size : Fits 4 message.serialize) :
    ∃ left, readMessage profile buf (frame 4 message.serialize ++ rest) =
      .ok (message, left, rest) := by
  obtain ⟨left, parsed⟩ := deserialize_serialize profile message fits
  exact ⟨left, by rw [read_message_frame profile buf _ rest size, parsed]⟩

/-- A serialized message parses as itself, and starts with the exact count of the bytes
that follow. -/
theorem serialize_round_trip (profile : Profile) (message : Message)
    (fits : MessageFits message) :
    (∃ left, Message.deserialize profile message.serialize = .ok (message, left)) ∧
      ∃ rest, rest.length < 2 ^ 32 ∧
        message.serialize = BigEndian.encode 4 rest.length ++ rest := by
  obtain ⟨framed, size⟩ := serialize_framed message fits
  exact ⟨deserialize_serialize profile message fits, messageBody message, size, framed⟩

theorem serialize_round_trip_empty_piece :
    (∃ left, Message.deserialize .checked (Message.piece 1 2 []).serialize =
        .ok (.piece 1 2 [], left)) ∧
      ∃ rest, rest.length < 2 ^ 32 ∧
        (Message.piece 1 2 []).serialize = BigEndian.encode 4 rest.length ++ rest :=
  serialize_round_trip .checked (.piece 1 2 []) (by simp [MessageFits])

end MotteSeed.MessageRoundTrip
