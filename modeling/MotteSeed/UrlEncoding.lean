import MotteSeed.HttpTracker
import MotteSeed.Toolkit.Percent

/-! `AnnounceRequestHTTP::url_encode` as a percent-encoding. The loop keeps exactly the
unreserved characters, and the count in front of it, which has a test of its own, is the
number of the others. -/
namespace MotteSeed.UrlEncoding
open Toolkit Toolkit.Percent PeerWire TorrentMeta HttpTracker

section Characters

theorem keeps_iff (b : UInt8) :
    (isAsciiAlphanumeric b || b == 45 || b == 95 || b == 46 || b == 126) = true ↔
      Unreserved b := by
  simp only [isAsciiAlphanumeric, Unreserved, Bool.or_eq_true, Bool.and_eq_true,
    decide_eq_true_eq, beq_iff_eq, or_assoc]

/-- The test in front of the loop is the negation of the one in it. -/
theorem needs_encoding_eq (b : UInt8) : needsEncoding b =
    !(isAsciiAlphanumeric b || b == 45 || b == 95 || b == 46 || b == 126) := by
  unfold needsEncoding
  split
  · simp
  · simp
  · simp
  · simp
  · rename_i hyphen underscore period tilde
    simp only [beq_false_of_ne hyphen, beq_false_of_ne underscore, beq_false_of_ne period,
      beq_false_of_ne tilde, Bool.or_false]

theorem needs_encoding_iff (b : UInt8) : needsEncoding b = true ↔ ¬ Unreserved b := by
  rw [needs_encoding_eq, Bool.not_eq_true', ← Bool.not_eq_true, keeps_iff]

theorem encode_byte_kept_iff (b : UInt8) : encodeByte b = [b] ↔ Unreserved b := by
  rw [encodeByte, ← keeps_iff]
  split
  · rename_i kept
    exact iff_of_true rfl kept
  · rename_i escaped
    exact iff_of_false (by simp) escaped

theorem hex_digit_eq (digit : UInt8) (small : digit < 16) :
    hexDigit digit = if digit < 10 then 48 + digit else 55 + digit := by
  unfold hexDigit fromDigit toAsciiUppercase
  grind

theorem hex_digit_value (digit : UInt8) (small : digit < 16) :
    hexValue (hexDigit digit) = some digit := by
  rw [hex_digit_eq digit small, hexValue]
  grind

theorem hex_digit_upper (digit : UInt8) (small : digit < 16) : UpperHex (hexDigit digit) := by
  rw [hex_digit_eq digit small, UpperHex]
  grind

theorem high_nibble (b : UInt8) : (b >>> 4).toNat = b.toNat / 16 :=
  Nat.shiftRight_eq_div_pow b.toNat 4

theorem low_nibble (b : UInt8) : (b &&& 0xF).toNat = b.toNat % 16 :=
  Nat.and_two_pow_sub_one_eq_mod b.toNat 4

theorem nibbles_small (b : UInt8) : b >>> 4 < 16 ∧ b &&& 0xF < 16 := by
  have bound := b.toNat_lt
  have sixteen : (16 : UInt8).toNat = 16 := rfl
  rw [UInt8.lt_iff_toNat_lt, UInt8.lt_iff_toNat_lt, high_nibble, low_nibble]
  omega

theorem nibbles_value (b : UInt8) : (b >>> 4) * 16 + (b &&& 0xF) = b := by
  have bound := b.toNat_lt
  have sixteen : (16 : UInt8).toNat = 16 := rfl
  apply UInt8.toNat_inj.mp
  rw [UInt8.toNat_add, UInt8.toNat_mul, high_nibble, low_nibble, sixteen]
  omega

theorem encode_byte_writes (b : UInt8) : Writes b (encodeByte b) := by
  rw [encodeByte]
  split
  · rename_i kept
    exact .kept ((keeps_iff b).mp kept)
  · obtain ⟨high, low⟩ := nibbles_small b
    exact .escaped _ _ _ _ (hex_digit_upper _ high) (hex_digit_upper _ low)
      (hex_digit_value _ high) (hex_digit_value _ low) (nibbles_value b)

theorem encode_byte_length (b : UInt8) :
    (encodeByte b).length = if needsEncoding b then 3 else 1 := by
  rw [needs_encoding_eq, encodeByte]
  cases isAsciiAlphanumeric b || b == 45 || b == 95 || b == 46 || b == 126 with
  | true => rfl
  | false => rfl

end Characters

section Values

theorem url_encode_encoded (bytes : Hash) : Encoded (urlEncode bytes) :=
  encoded_all encodeByte encode_byte_writes bytes.toList

theorem url_encode_length (bytes : Hash) :
    (urlEncode bytes).length = urlEncodeCapacity bytes :=
  length_all encodeByte needsEncoding encode_byte_length bytes.toList

theorem capacity_eq (bytes : Hash) : urlEncodeCapacity bytes =
    20 + 2 * bytes.toList.countP fun b => encodeByte b ≠ [b] := by
  have same : needsEncoding = fun b => decide (encodeByte b ≠ [b]) := by
    funext b
    rw [Bool.eq_iff_iff, needs_encoding_iff, decide_eq_true_iff, Ne, encode_byte_kept_iff]
  rw [urlEncodeCapacity, ← List.countP_eq_length_filter, Vector.length_toList, same,
    Nat.mul_comm]

/-- The encoding of a value is unreserved characters and uppercase escapes, it decodes to
the value and to no other one, and it has the length that was allocated. -/
theorem url_encode_exact (bytes : Hash) :
    Encoded (urlEncode bytes) ∧ decode (urlEncode bytes) = some bytes.toList ∧
      (∀ other, urlEncode other = urlEncode bytes → other = bytes) ∧
      (urlEncode bytes).length = urlEncodeCapacity bytes ∧
      urlEncodeCapacity bytes = 20 + 2 * bytes.toList.countP fun b => encodeByte b ≠ [b] := by
  refine ⟨url_encode_encoded bytes, decode_all encodeByte encode_byte_writes bytes.toList, ?_,
    url_encode_length bytes, capacity_eq bytes⟩
  intro other same
  exact Vector.toList_inj.mp (encode_injective encodeByte encode_byte_writes _ _ same)

end Values

end MotteSeed.UrlEncoding
