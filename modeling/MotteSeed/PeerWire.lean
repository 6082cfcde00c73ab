import MotteSeed.Toolkit.BigEndian
import MotteSeed.Toolkit.Checked

/-! The peer wire messages of `message.rs`: the sender's layout of the eleven
kinds and the parser's reading of a buffer. `serializeInto` appends to whatever
the buffer already holds. The parser returns what is left in the caller's buffer,
because the payload kinds split it. Lengths are written modulo 2^32, as the cast
and the addition of a wrapping build do. -/
namespace MotteSeed.PeerWire
open Toolkit Toolkit.Checked

abbrev Bytes := List UInt8

inductive Message where
  | keepAlive
  | choke
  | unChoke
  | interested
  | notInterested
  | havePiece (pieceIndex : UInt32)
  | bitfield (bytes : Bytes)
  | request (index begin length : UInt32)
  | piece (index begin : UInt32) (block : Bytes)
  | cancel (index begin length : UInt32)
  | port (number : UInt16)
  deriving DecidableEq

inductive MessageError where
  | invalidType (id : UInt8)
  | messageTooShort
  deriving DecidableEq

def putU8 (buf : Bytes) (value : UInt8) : Bytes := buf ++ [value]

def putU16 (buf : Bytes) (value : UInt16) : Bytes := buf ++ BigEndian.encode 2 value.toNat

def putU32 (buf : Bytes) (value : UInt32) : Bytes := buf ++ BigEndian.encode 4 value.toNat

def putSlice (buf bytes : Bytes) : Bytes := buf ++ bytes

def Message.serializeInto : Message → Bytes → Bytes
  | .keepAlive, buf => putU32 buf 0
  | .choke, buf => putU8 (putU32 buf 1) 0
  | .unChoke, buf => putU8 (putU32 buf 1) 1
  | .interested, buf => putU8 (putU32 buf 1) 2
  | .notInterested, buf => putU8 (putU32 buf 1) 3
  | .havePiece pieceIndex, buf => putU32 (putU8 (putU32 buf 5) 4) pieceIndex
  | .bitfield bytes, buf =>
      putSlice (putU8 (putU32 buf (1 + UInt32.ofNat bytes.length)) 5) bytes
  | .request index begin length, buf =>
      putU32 (putU32 (putU32 (putU8 (putU32 buf 13) 6) index) begin) length
  | .piece index begin block, buf =>
      putSlice (putU32 (putU32 (putU8 (putU32 buf (9 + UInt32.ofNat block.length)) 7)
        index) begin) block
  | .cancel index begin length, buf =>
      putU32 (putU32 (putU32 (putU8 (putU32 buf 13) 8) index) begin) length
  | .port number, buf => putU16 (putU8 (putU32 buf 3) 9) number

def Message.serialize (message : Message) : Bytes := message.serializeInto []

def byteAt (bytes : Bytes) (index : Nat) : Except (Fault MessageError) UInt8 :=
  match bytes[index]? with
  | some byte => .ok byte
  | none => .error .bounds

def u32At (bytes : Bytes) (index : Nat) : Except (Fault MessageError) UInt32 :=
  if index + 4 ≤ bytes.length then
    .ok (UInt32.ofNat (BigEndian.decode ((bytes.drop index).take 4)))
  else .error .bounds

def u16At (bytes : Bytes) (index : Nat) : Except (Fault MessageError) UInt16 :=
  if index + 2 ≤ bytes.length then
    .ok (UInt16.ofNat (BigEndian.decode ((bytes.drop index).take 2)))
  else .error .bounds

/-- `bytes.split_off(index)`: the caller's buffer keeps the front. -/
def splitOff (bytes : Bytes) (index : Nat) : Except (Fault MessageError) (Bytes × Bytes) :=
  if index ≤ bytes.length then .ok (bytes.take index, bytes.drop index)
  else .error .bounds

def tooShort : Except (Fault MessageError) (Message × Bytes) :=
  .error (.error .messageTooShort)

/-- On success, the message and what remains in the caller's buffer. -/
def Message.deserialize (profile : Profile) (bytes : Bytes) :
    Except (Fault MessageError) (Message × Bytes) :=
  if bytes.length < 4 then tooShort
  else do
    let len ← u32At bytes 0
    if len = 0 then pure (.keepAlive, bytes)
    else if bytes.length < 5 then tooShort
    else do
      let msgId ← byteAt bytes 4
      match msgId.toNat with
      | 0 => pure (.choke, bytes)
      | 1 => pure (.unChoke, bytes)
      | 2 => pure (.interested, bytes)
      | 3 => pure (.notInterested, bytes)
      | 4 =>
          if bytes.length ≠ 9 then tooShort
          else do
            let pieceIndex ← u32At bytes 5
            pure (.havePiece pieceIndex, bytes)
      | 5 => do
          let rest ← profile.sub 32 len.toNat 1
          if bytes.length < 5 + rest then tooShort
          else do
            -- The payload is everything behind the id, whatever the length prefix says.
            let (front, payload) ← splitOff bytes 5
            pure (.bitfield payload, front)
      | 6 =>
          if bytes.length ≠ 17 then tooShort
          else do
            let index ← u32At bytes 5
            let begin ← u32At bytes 9
            let length ← u32At bytes 13
            pure (.request index begin length, bytes)
      | 7 => do
          let rest ← profile.sub 32 len.toNat 9
          if bytes.length < 13 + rest then tooShort
          else do
            let index ← u32At bytes 5
            let begin ← u32At bytes 9
            let (front, block) ← splitOff bytes 13
            pure (.piece index begin block, front)
      | 8 =>
          if bytes.length ≠ 17 then tooShort
          else do
            let index ← u32At bytes 5
            let begin ← u32At bytes 9
            let length ← u32At bytes 13
            pure (.cancel index begin length, bytes)
      | 9 =>
          if bytes.length ≠ 7 then tooShort
          else do
            let number ← u16At bytes 5
            pure (.port number, bytes)
      | _ => .error (.error (.invalidType msgId))

theorem serialize_into_append (message : Message) (buf : Bytes) :
    message.serializeInto buf = buf ++ message.serialize := by
  cases message <;>
    simp [Message.serialize, Message.serializeInto, putU8, putU16, putU32, putSlice]

/-- Everything a successful parse says about the buffer, one constructor for
each arm of the source's match. -/
inductive Parsed (profile : Profile) (bytes : Bytes) : Message → Bytes → Prop where
  | keepAlive (enough : 4 ≤ bytes.length) (zero : u32At bytes 0 = .ok 0) :
      Parsed profile bytes .keepAlive bytes
  | signal (message : Message) (id : UInt8) (len : UInt32)
      (known : (id.toNat, message) ∈ [(0, Message.choke), (1, .unChoke),
        (2, .interested), (3, .notInterested)])
      (enough : 5 ≤ bytes.length) (first : u32At bytes 0 = .ok len) (nonzero : len ≠ 0)
      (kind : byteAt bytes 4 = .ok id) : Parsed profile bytes message bytes
  | havePiece (id : UInt8) (len pieceIndex : UInt32) (known : id.toNat = 4)
      (exact : bytes.length = 9) (first : u32At bytes 0 = .ok len) (nonzero : len ≠ 0)
      (kind : byteAt bytes 4 = .ok id) (field : u32At bytes 5 = .ok pieceIndex) :
      Parsed profile bytes (.havePiece pieceIndex) bytes
  | bitfield (id : UInt8) (len : UInt32) (known : id.toNat = 5)
      (enough : 5 + (len.toNat - 1) ≤ bytes.length) (first : u32At bytes 0 = .ok len)
      (nonzero : len ≠ 0) (kind : byteAt bytes 4 = .ok id) :
      Parsed profile bytes (.bitfield (bytes.drop 5)) (bytes.take 5)
  | request (id : UInt8) (len index begin length : UInt32) (known : id.toNat = 6)
      (exact : bytes.length = 17) (first : u32At bytes 0 = .ok len) (nonzero : len ≠ 0)
      (kind : byteAt bytes 4 = .ok id) (field : u32At bytes 5 = .ok index)
      (field' : u32At bytes 9 = .ok begin) (field'' : u32At bytes 13 = .ok length) :
      Parsed profile bytes (.request index begin length) bytes
  | piece (id : UInt8) (len index begin : UInt32) (rest : Nat) (known : id.toNat = 7)
      (left : (profile.sub 32 len.toNat 9 : Except (Fault MessageError) Nat) = .ok rest)
      (enough : 13 + rest ≤ bytes.length) (first : u32At bytes 0 = .ok len)
      (nonzero : len ≠ 0) (kind : byteAt bytes 4 = .ok id) (field : u32At bytes 5 = .ok index)
      (field' : u32At bytes 9 = .ok begin) :
      Parsed profile bytes (.piece index begin (bytes.drop 13)) (bytes.take 13)
  | cancel (id : UInt8) (len index begin length : UInt32) (known : id.toNat = 8)
      (exact : bytes.length = 17) (first : u32At bytes 0 = .ok len) (nonzero : len ≠ 0)
      (kind : byteAt bytes 4 = .ok id) (field : u32At bytes 5 = .ok index)
      (field' : u32At bytes 9 = .ok begin) (field'' : u32At bytes 13 = .ok length) :
      Parsed profile bytes (.cancel index begin length) bytes
  | port (id : UInt8) (len : UInt32) (number : UInt16) (known : id.toNat = 9)
      (exact : bytes.length = 7) (first : u32At bytes 0 = .ok len) (nonzero : len ≠ 0)
      (kind : byteAt bytes 4 = .ok id) (field : u16At bytes 5 = .ok number) :
      Parsed profile bytes (.port number) bytes

theorem unless_short {ok : Prop} [Decidable ok]
    {next : Except (Fault MessageError) (Message × Bytes)} {result : Message × Bytes}
    (parsed : (if ok then tooShort else next) = .ok result) : ¬ ok ∧ next = .ok result := by
  by_cases short : ok
  · simp [short, tooShort] at parsed
  · exact ⟨short, by simpa [short] using parsed⟩

theorem split_off_ok (bytes front back : Bytes) (index : Nat)
    (split : splitOff bytes index = .ok (front, back)) :
    front = bytes.take index ∧ back = bytes.drop index := by
  unfold splitOff at split
  by_cases inside : index ≤ bytes.length
  · simp only [inside, ↓reduceIte, Except.ok.injEq, Prod.mk.injEq] at split
    exact ⟨split.1.symm, split.2.symm⟩
  · simp [inside] at split

theorem deserialize_parsed (profile : Profile) (bytes left : Bytes) (message : Message)
    (parsed : Message.deserialize profile bytes = .ok (message, left)) :
    Parsed profile bytes message left := by
  unfold Message.deserialize at parsed
  obtain ⟨four, parsed⟩ := unless_short parsed
  obtain ⟨len, first, parsed⟩ := (bind_ok_iff _ _ _).mp parsed
  by_cases zero : len = 0
  · subst zero
    obtain ⟨rfl, rfl⟩ : Message.keepAlive = message ∧ bytes = left := by
      simpa [pure, Except.pure] using parsed
    exact .keepAlive (by omega) first
  · simp only [zero, ↓reduceIte] at parsed
    obtain ⟨five, parsed⟩ := unless_short parsed
    obtain ⟨msgId, kind, parsed⟩ := (bind_ok_iff _ _ _).mp parsed
    -- The length is not zero, so the subtraction for a bitfield is exact.
    have positive : 1 ≤ len.toNat := by
      have apart : len.toNat ≠ 0 := fun same => zero (UInt32.toNat_inj.mp (by simpa using same))
      omega
    split at parsed
    case h_5 known =>
      obtain ⟨exact, parsed⟩ := unless_short parsed
      obtain ⟨pieceIndex, field, parsed⟩ := (bind_ok_iff _ _ _).mp parsed
      obtain ⟨rfl, rfl⟩ : Message.havePiece pieceIndex = message ∧ bytes = left := by
        simpa [pure, Except.pure] using parsed
      exact .havePiece msgId len pieceIndex known (by omega) first zero kind field
    case h_6 known =>
      obtain ⟨rest, less, parsed⟩ := (bind_ok_iff _ _ _).mp parsed
      obtain ⟨enough, parsed⟩ := unless_short parsed
      obtain ⟨⟨front, payload⟩, split, parsed⟩ := (bind_ok_iff _ _ _).mp parsed
      obtain ⟨rfl, rfl⟩ := split_off_ok bytes front payload 5 split
      obtain ⟨rfl, rfl⟩ : Message.bitfield (bytes.drop 5) = message ∧ bytes.take 5 = left := by
        simpa [pure, Except.pure] using parsed
      rw [sub_exact profile 32 _ _ positive] at less
      cases less
      exact .bitfield msgId len known (by omega) first zero kind
    case h_7 known =>
      obtain ⟨exact, parsed⟩ := unless_short parsed
      obtain ⟨index, field, parsed⟩ := (bind_ok_iff _ _ _).mp parsed
      obtain ⟨begin, field', parsed⟩ := (bind_ok_iff _ _ _).mp parsed
      obtain ⟨length, field'', parsed⟩ := (bind_ok_iff _ _ _).mp parsed
      obtain ⟨rfl, rfl⟩ : Message.request index begin length = message ∧ bytes = left := by
        simpa [pure, Except.pure] using parsed
      exact .request msgId len index begin length known (by omega) first zero kind
        field field' field''
    case h_8 known =>
      obtain ⟨rest, less, parsed⟩ := (bind_ok_iff _ _ _).mp parsed
      obtain ⟨enough, parsed⟩ := unless_short parsed
      obtain ⟨index, field, parsed⟩ := (bind_ok_iff _ _ _).mp parsed
      obtain ⟨begin, field', parsed⟩ := (bind_ok_iff _ _ _).mp parsed
      obtain ⟨⟨front, block⟩, split, parsed⟩ := (bind_ok_iff _ _ _).mp parsed
      obtain ⟨rfl, rfl⟩ := split_off_ok bytes front block 13 split
      obtain ⟨rfl, rfl⟩ : Message.piece index begin (bytes.drop 13) = message ∧
          bytes.take 13 = left := by
        simpa [pure, Except.pure] using parsed
      exact .piece msgId len index begin rest known less (by omega) first zero kind field field'
    case h_9 known =>
      obtain ⟨exact, parsed⟩ := unless_short parsed
      obtain ⟨index, field, parsed⟩ := (bind_ok_iff _ _ _).mp parsed
      obtain ⟨begin, field', parsed⟩ := (bind_ok_iff _ _ _).mp parsed
      obtain ⟨length, field'', parsed⟩ := (bind_ok_iff _ _ _).mp parsed
      obtain ⟨rfl, rfl⟩ : Message.cancel index begin length = message ∧ bytes = left := by
        simpa [pure, Except.pure] using parsed
      exact .cancel msgId len index begin length known (by omega) first zero kind
        field field' field''
    case h_10 known =>
      obtain ⟨exact, parsed⟩ := unless_short parsed
      obtain ⟨number, field, parsed⟩ := (bind_ok_iff _ _ _).mp parsed
      obtain ⟨rfl, rfl⟩ : Message.port number = message ∧ bytes = left := by
        simpa [pure, Except.pure] using parsed
      exact .port msgId len number known (by omega) first zero kind field
    case h_11 => cases parsed
    all_goals
      rename_i known
      obtain ⟨rfl, rfl⟩ := by simpa [pure, Except.pure] using parsed
      exact .signal _ msgId len (by simp [known]) (by omega) first zero kind

/-- The parser never makes up bytes: no message it returns is longer on the wire
than the buffer it was read from. -/
theorem deserialize_shrinks (profile : Profile) (bytes left : Bytes) (message : Message)
    (parsed : Message.deserialize profile bytes = .ok (message, left)) :
    message.serialize.length ≤ bytes.length := by
  have arm := deserialize_parsed profile bytes left message parsed
  cases arm with
  | keepAlive enough => simpa [Message.serialize, Message.serializeInto, putU32] using enough
  | signal message id len known enough =>
      simp only [List.mem_cons, List.not_mem_nil, or_false, Prod.mk.injEq] at known
      rcases known with ⟨_, rfl⟩ | ⟨_, rfl⟩ | ⟨_, rfl⟩ | ⟨_, rfl⟩ <;>
        simpa [Message.serialize, Message.serializeInto, putU32, putU8] using enough
  | havePiece id len pieceIndex known exact =>
      simp [Message.serialize, Message.serializeInto, putU32, putU8, exact]
  | bitfield id len known enough =>
      simp [Message.serialize, Message.serializeInto, putU32, putU8, putSlice]
      omega
  | request id len index begin length known exact =>
      simp [Message.serialize, Message.serializeInto, putU32, putU8, exact]
  | piece id len index begin rest known less enough =>
      simp [Message.serialize, Message.serializeInto, putU32, putU8, putSlice]
      omega
  | cancel id len index begin length known exact =>
      simp [Message.serialize, Message.serializeInto, putU32, putU8, exact]
  | port id len number known exact =>
      simp [Message.serialize, Message.serializeInto, putU32, putU8, putU16, exact]

theorem deserialize_leaves (profile : Profile) (bytes left : Bytes) (message : Message)
    (parsed : Message.deserialize profile bytes = .ok (message, left)) : left ≠ [] := by
  have nonempty : 4 ≤ left.length := by
    have arm := deserialize_parsed profile bytes left message parsed
    cases arm <;> first | omega | (rw [List.length_take]; omega)
  intro empty
  simp [empty] at nonempty

end MotteSeed.PeerWire
