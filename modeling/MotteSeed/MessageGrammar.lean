import MotteSeed.MessageRoundTrip

/-! The parser over all buffers: on which of them it finishes with a message or an error
value, and which of those it accepts are what the message would be serialized to. -/
namespace MotteSeed.MessageGrammar
open Toolkit Toolkit.Checked PeerWire MessageRoundTrip

def declared (bytes : Bytes) : Nat := BigEndian.decode (bytes.take 4)

theorem declared_lt (bytes : Bytes) : declared bytes < 2 ^ 32 := by
  have bound := BigEndian.decode_lt (bytes.take 4)
  have width : (256 : Nat) ^ (bytes.take 4).length ≤ 256 ^ 4 :=
    Nat.pow_le_pow_right (by decide) (List.length_take_le 4 bytes)
  exact Nat.lt_of_lt_of_le bound width

theorem declared_word (bytes : Bytes) (len : UInt32) (first : u32At bytes 0 = .ok len) :
    len.toNat = declared bytes := by
  unfold u32At at first
  split at first
  · cases first
    rw [UInt32.toNat_ofNat', List.drop_zero]
    exact Nat.mod_eq_of_lt (declared_lt bytes)
  · cases first

theorem u32_at_inside (bytes : Bytes) (index : Nat) (inside : index + 4 ≤ bytes.length) :
    ∃ value, u32At bytes index = .ok value := ⟨_, if_pos inside⟩

theorem u16_at_inside (bytes : Bytes) (index : Nat) (inside : index + 2 ≤ bytes.length) :
    ∃ value, u16At bytes index = .ok value := ⟨_, if_pos inside⟩

theorem byte_at_iff (bytes : Bytes) (index : Nat) (byte : UInt8) :
    byteAt bytes index = .ok byte ↔ bytes[index]? = some byte := by
  unfold byteAt
  split
  · rename_i other found
    simp [found]
  · rename_i absent
    simp [absent]

section Finishing

variable {α : Type}

/-- The call returns, with a value or with an error value. -/
def Finishes (result : Except (Fault MessageError) α) : Prop :=
  result ≠ .error .overflow ∧ result ≠ .error .bounds

theorem finishes_ok (value : α) : Finishes (.ok value) := by
  constructor <;> simp

theorem finishes_error (reason : MessageError) :
    Finishes (.error (.error reason) : Except (Fault MessageError) α) := by
  constructor <;> simp

theorem finishes_unless (short : Prop) [Decidable short]
    (next : Except (Fault MessageError) (Message × Bytes)) (fine : ¬ short → Finishes next) :
    Finishes (if short then tooShort else next) := by
  by_cases less : short
  · rw [if_pos less]
    exact finishes_error .messageTooShort
  · rw [if_neg less]
    exact fine less

theorem finishes_bind {β : Type} (call : Except (Fault MessageError) β) (value : β)
    (next : β → Except (Fault MessageError) α) (called : call = .ok value)
    (fine : Finishes (next value)) : Finishes (call >>= next) := by
  rw [called]
  exact fine

theorem finishes_word (bytes : Bytes) (index : Nat) (inside : index + 4 ≤ bytes.length)
    (next : UInt32 → Except (Fault MessageError) α) (fine : ∀ value, Finishes (next value)) :
    Finishes (u32At bytes index >>= next) := by
  obtain ⟨value, called⟩ := u32_at_inside bytes index inside
  exact finishes_bind _ value next called (fine value)

/-- A piece message whose declared length does not even cover its fixed fields. -/
structure ShortPiece (bytes : Bytes) : Prop where
  kind : bytes[4]? = some 7
  positive : 0 < declared bytes
  short : declared bytes < 9

theorem short_piece_overflows (bytes : Bytes) (short : ShortPiece bytes) :
    Message.deserialize .checked bytes = .error .overflow := by
  have enough := (List.getElem?_eq_some_iff.mp short.kind).1
  obtain ⟨len, first⟩ := u32_at_inside bytes 0 (by omega)
  have same := declared_word bytes len first
  have nonzero : len ≠ 0 := by
    rintro rfl
    have positive := short.positive
    rw [← same] at positive
    cases positive
  have less : ¬ 9 ≤ len.toNat := by
    rw [same]
    exact Nat.not_le.mpr short.short
  have kind := (byte_at_iff bytes 4 7).mpr short.kind
  simp only [Message.deserialize, if_neg (show ¬ bytes.length < 4 by omega), first, bind,
    Except.bind, if_neg nonzero, if_neg (show ¬ bytes.length < 5 by omega), kind]
  simp only [Profile.sub, if_neg less]
  rfl

theorem deserialize_finishes (profile : Profile) (bytes : Bytes) (fine : ¬ ShortPiece bytes) :
    Finishes (Message.deserialize profile bytes) := by
  apply finishes_unless
  intro four
  obtain ⟨len, first⟩ := u32_at_inside bytes 0 (by omega)
  have same := declared_word bytes len first
  apply finishes_bind _ len _ first
  by_cases zero : len = 0
  · rw [if_pos zero]
    exact finishes_ok _
  rw [if_neg zero]
  apply finishes_unless
  intro five
  have inside : 4 < bytes.length := by omega
  have kind : bytes[4]? = some bytes[4] := List.getElem?_eq_getElem inside
  apply finishes_bind _ bytes[4] _ ((byte_at_iff bytes 4 _).mpr kind)
  have positive : 0 < len.toNat := Nat.pos_of_ne_zero fun none =>
    zero (UInt32.toNat_inj.mp (by simpa using none))
  split
  case h_5 =>
    apply finishes_unless
    intro exact_length
    exact finishes_word bytes 5 (by omega) _ fun pieceIndex => finishes_ok _
  case h_6 =>
    apply finishes_bind _ _ _ (sub_exact profile 32 len.toNat 1 positive)
    apply finishes_unless
    intro enough
    exact finishes_bind _ _ _ (if_pos (by omega)) (finishes_ok _)
  case h_7 | h_9 =>
    apply finishes_unless
    intro exact_length
    apply finishes_word bytes 5 (by omega)
    intro index
    apply finishes_word bytes 9 (by omega)
    intro begin
    exact finishes_word bytes 13 (by omega) _ fun length => finishes_ok _
  case h_8 known =>
    have nine : 9 ≤ len.toNat := by
      by_contra less
      have seven : bytes[4] = 7 := UInt8.toNat_inj.mp known
      exact fine ⟨by rw [kind, seven], by omega, by omega⟩
    apply finishes_bind _ _ _ (sub_exact profile 32 len.toNat 9 nine)
    apply finishes_unless
    intro enough
    apply finishes_word bytes 5 (by omega)
    intro index
    apply finishes_word bytes 9 (by omega)
    intro begin
    exact finishes_bind _ _ _ (if_pos (by omega)) (finishes_ok _)
  case h_10 =>
    apply finishes_unless
    intro exact_length
    obtain ⟨number, called⟩ := u16_at_inside bytes 5 (by omega)
    exact finishes_bind _ number _ called (finishes_ok _)
  case h_11 => exact finishes_error _
  all_goals exact finishes_ok _

/-- The parser finishes on every buffer but the short pieces, where the length it
subtracts from is too small. -/
theorem deserialize_finishes_iff (bytes : Bytes) :
    (∀ profile, Finishes (Message.deserialize profile bytes)) ↔ ¬ ShortPiece bytes := by
  constructor
  · intro finishes short
    exact (finishes .checked).1 (short_piece_overflows bytes short)
  · intro fine profile
    exact deserialize_finishes profile bytes fine

/-- A declared length of one and the id of a piece. -/
theorem short_piece_unfinished :
    ¬ ∀ bytes profile, Finishes (Message.deserialize profile bytes) := by
  intro finishes
  have overflows := short_piece_overflows [0, 0, 0, 1, 7] ⟨rfl, by decide, by decide⟩
  exact (finishes [0, 0, 0, 1, 7] .checked).1 overflows

end Finishing

section Acceptance

theorem word_split (bytes : Bytes) (index : Nat) (value : UInt32)
    (field : u32At bytes index = .ok value) :
    bytes.drop index = BigEndian.encode 4 value.toNat ++ bytes.drop (index + 4) := by
  unfold u32At at field
  split at field
  · rename_i inside
    cases field
    rw [UInt32.toNat_ofNat', show 2 ^ 32 = 256 ^ 4 from rfl, BigEndian.encode_mod,
      BigEndian.encode_field bytes index 4 inside]
  · cases field

theorem half_split (bytes : Bytes) (index : Nat) (value : UInt16)
    (field : u16At bytes index = .ok value) :
    bytes.drop index = BigEndian.encode 2 value.toNat ++ bytes.drop (index + 2) := by
  unfold u16At at field
  split at field
  · rename_i inside
    cases field
    rw [UInt16.toNat_ofNat', show 2 ^ 16 = 256 ^ 2 from rfl, BigEndian.encode_mod,
      BigEndian.encode_field bytes index 2 inside]
  · cases field

theorem header_split (bytes : Bytes) (len : UInt32) (id : UInt8)
    (first : u32At bytes 0 = .ok len) (kind : byteAt bytes 4 = .ok id) :
    bytes = header len id ++ bytes.drop 5 := by
  have front := word_split bytes 0 len first
  have there := (byte_at_iff bytes 4 id).mp kind
  obtain ⟨inside, same⟩ := List.getElem?_eq_some_iff.mp there
  rw [List.drop_zero, List.drop_eq_getElem_cons inside, same] at front
  rw [header, List.append_assoc]
  exact front

/-- The declared length counts what follows it, with nothing behind an empty message or
behind a message without a payload. -/
structure WellSized (bytes : Bytes) : Prop where
  counts : declared bytes = (bytes.length - 4) % 2 ^ 32
  keepAlive : declared bytes = 0 → bytes.length = 4
  signal : ∀ id, bytes[4]? = some id → id.toNat < 4 → bytes.length = 5

theorem framed_iff (bytes : Bytes) (len expected : UInt32) (id : UInt8)
    (first : u32At bytes 0 = .ok len) (nonzero : len ≠ 0) (kind : byteAt bytes 4 = .ok id)
    (payload : 4 ≤ id.toNat) (size : expected.toNat = (bytes.length - 4) % 2 ^ 32) :
    bytes = header expected id ++ bytes.drop 5 ↔ WellSized bytes := by
  have whole := header_split bytes len id first kind
  have word := declared_word bytes len first
  constructor
  · intro same
    have read := header_len expected id (bytes.drop 5)
    rw [← same, first] at read
    cases read
    refine ⟨word.symm.trans size, ?_, ?_⟩
    · intro zero
      rw [← word] at zero
      exact absurd (UInt32.toNat_inj.mp zero) nonzero
    · intro other there small
      rw [(byte_at_iff bytes 4 id).mp kind] at there
      cases there
      omega
  · intro sized
    have same : len = expected := UInt32.toNat_inj.mp (by rw [word, size, sized.counts])
    rw [← same]
    exact whole

theorem keep_alive_iff (bytes : Bytes) (enough : 4 ≤ bytes.length)
    (zero : u32At bytes 0 = .ok 0) : bytes = Message.keepAlive.serialize ↔ WellSized bytes := by
  have none_declared : declared bytes = 0 := (declared_word bytes 0 zero).symm
  constructor
  · rintro rfl
    exact ⟨rfl, fun _ => rfl, fun id there => by cases there⟩
  · intro sized
    have front := word_split bytes 0 0 zero
    have nothing : bytes.drop 4 = [] :=
      List.drop_eq_nil_of_le (Nat.le_of_eq (sized.keepAlive none_declared))
    rw [List.drop_zero, Nat.zero_add, nothing] at front
    exact front

theorem signal_iff (bytes : Bytes) (message : Message) (id : UInt8) (len : UInt32)
    (shape : message.serialize = header 1 id) (small : id.toNat < 4)
    (first : u32At bytes 0 = .ok len) (kind : byteAt bytes 4 = .ok id) :
    bytes = message.serialize ↔ WellSized bytes := by
  have whole := header_split bytes len id first kind
  have word := declared_word bytes len first
  rw [shape]
  constructor
  · rintro rfl
    have read := header_len 1 id []
    rw [List.append_nil, first] at read
    cases read
    refine ⟨word.symm, fun zero => ?_, fun _ _ _ => header_length 1 id⟩
    rw [← word] at zero
    cases zero
  · intro sized
    have five := sized.signal id ((byte_at_iff bytes 4 id).mp kind) small
    have one : len = 1 := UInt32.toNat_inj.mp (by rw [word, sized.counts, five]; rfl)
    rwa [one, List.drop_eq_nil_of_le (Nat.le_of_eq five), List.append_nil] at whole

theorem counted_word (fixed : UInt32) (count total : Nat) (same : fixed.toNat + count = total) :
    (fixed + UInt32.ofNat count).toNat = total % 2 ^ 32 := by
  rw [UInt32.toNat_add, UInt32.toNat_ofNat', Nat.add_mod_mod, same]

theorem range_split (bytes : Bytes) (index begin length : UInt32) (exact : bytes.length = 17)
    (field : u32At bytes 5 = .ok index) (field' : u32At bytes 9 = .ok begin)
    (field'' : u32At bytes 13 = .ok length) : bytes.drop 5 = blockRange index begin length := by
  have nothing : bytes.drop 17 = [] := List.drop_eq_nil_of_le (Nat.le_of_eq exact)
  rw [word_split bytes 5 index field, word_split bytes 9 begin field',
    word_split bytes 13 length field'', nothing, List.append_nil, blockRange]

/-- An accepted buffer is what its message serializes to exactly when it is well sized. -/
theorem accepted_exact_iff (profile : Profile) (bytes left : Bytes) (message : Message)
    (accepted : Message.deserialize profile bytes = .ok (message, left)) :
    bytes = message.serialize ↔ WellSized bytes := by
  have arm := deserialize_parsed profile bytes left message accepted
  cases arm with
  | keepAlive enough zero => exact keep_alive_iff bytes enough zero
  | signal _ id len known enough first nonzero kind =>
      have shape : message.serialize = header 1 id ∧ id.toNat < 4 := by
        simp only [List.mem_cons, List.not_mem_nil, or_false, Prod.mk.injEq] at known
        rcases known with ⟨same, rfl⟩ | ⟨same, rfl⟩ | ⟨same, rfl⟩ | ⟨same, rfl⟩ <;>
          exact ⟨by rw [← UInt8.ofNat_toNat (x := id), same]; rfl, by omega⟩
      exact signal_iff bytes message id len shape.1 shape.2 first kind
  | havePiece id len pieceIndex known exact first nonzero kind field =>
      have whole := framed_iff bytes len 5 id first nonzero kind (by omega) (by rw [exact]; rfl)
      obtain rfl : id = 4 := UInt8.toNat_inj.mp known
      have nothing : bytes.drop 9 = [] := List.drop_eq_nil_of_le (Nat.le_of_eq exact)
      rw [word_split bytes 5 pieceIndex field, nothing, List.append_nil] at whole
      rwa [have_shape]
  | bitfield id len known enough first nonzero kind =>
      have positive : 0 < len.toNat := Nat.pos_of_ne_zero fun none =>
        nonzero (UInt32.toNat_inj.mp (by simpa using none))
      have inside := (List.getElem?_eq_some_iff.mp ((byte_at_iff bytes 4 id).mp kind)).1
      obtain rfl : id = 5 := UInt8.toNat_inj.mp known
      rw [bitfield_shape]
      apply framed_iff bytes len _ 5 first nonzero kind (by decide)
      apply counted_word
      rw [List.length_drop, UInt32.toNat_one]
      omega
  | request id len index begin length known exact first nonzero kind field field' field'' =>
      obtain rfl : id = 6 := UInt8.toNat_inj.mp known
      have whole := framed_iff bytes len 13 6 first nonzero kind (by decide) (by rw [exact]; rfl)
      rw [range_split bytes index begin length exact field field' field''] at whole
      rwa [request_shape]
  | piece id len index begin rest known less enough first nonzero kind field field' =>
      obtain rfl : id = 7 := UInt8.toNat_inj.mp known
      have size : (9 + UInt32.ofNat (bytes.drop 13).length).toNat =
          (bytes.length - 4) % 2 ^ 32 := by
        apply counted_word
        rw [List.length_drop, show (9 : UInt32).toNat = 9 from rfl]
        omega
      have whole := framed_iff bytes len _ 7 first nonzero kind (by decide) size
      rw [word_split bytes 5 index field, word_split bytes 9 begin field'] at whole
      rwa [piece_shape]
  | cancel id len index begin length known exact first nonzero kind field field' field'' =>
      obtain rfl : id = 8 := UInt8.toNat_inj.mp known
      have whole := framed_iff bytes len 13 8 first nonzero kind (by decide) (by rw [exact]; rfl)
      rw [range_split bytes index begin length exact field field' field''] at whole
      rwa [cancel_shape]
  | port id len number known exact first nonzero kind field =>
      obtain rfl : id = 9 := UInt8.toNat_inj.mp known
      have whole := framed_iff bytes len 3 9 first nonzero kind (by decide) (by rw [exact]; rfl)
      have nothing : bytes.drop 7 = [] := List.drop_eq_nil_of_le (Nat.le_of_eq exact)
      rw [half_split bytes 5 number field, nothing, List.append_nil] at whole
      rwa [port_shape]

theorem accepted_exact_interested :
    ([0, 0, 0, 1, 2] : Bytes) = Message.interested.serialize ↔ WellSized [0, 0, 0, 1, 2] :=
  accepted_exact_iff .checked [0, 0, 0, 1, 2] [0, 0, 0, 1, 2] .interested rfl

/-- A byte behind a choke, and a declared length that nothing checks. -/
theorem trailing_byte_accepted :
    Message.deserialize .checked [0, 0, 0, 7, 0, 9] = .ok (.choke, [0, 0, 0, 7, 0, 9]) ∧
      [0, 0, 0, 7, 0, 9] ≠ Message.choke.serialize := by
  refine ⟨rfl, ?_⟩
  decide

end Acceptance

end MotteSeed.MessageGrammar
