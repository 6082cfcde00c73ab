import Mathlib.Data.Nat.Basic
import Mathlib.Tactic.Ring

/-! Fixed-width big-endian naturals as byte lists. Encoding reads a value modulo
the width, decoding is the base-256 value, and the two are mutually inverse on
values that fit and on byte lists of the right length. -/
namespace Toolkit.BigEndian

def encode : Nat → Nat → List UInt8
  | 0, _ => []
  | width + 1, value => UInt8.ofNat (value / 256 ^ width) :: encode width value

def decode : List UInt8 → Nat
  | [] => 0
  | byte :: rest => byte.toNat * 256 ^ rest.length + decode rest

@[simp] theorem encode_length (width value : Nat) : (encode width value).length = width := by
  induction width with
  | zero => rfl
  | succ width ih => simp [encode, ih]

theorem decode_lt (bytes : List UInt8) : decode bytes < 256 ^ bytes.length := by
  induction bytes with
  | nil => simp [decode]
  | cons byte rest ih =>
      have small : byte.toNat + 1 ≤ 256 := byte.toNat_lt
      calc byte.toNat * 256 ^ rest.length + decode rest
          < byte.toNat * 256 ^ rest.length + 256 ^ rest.length := by omega
        _ = (byte.toNat + 1) * 256 ^ rest.length := by ring
        _ ≤ 256 * 256 ^ rest.length := Nat.mul_le_mul_right _ small
        _ = 256 ^ (byte :: rest).length := by rw [List.length_cons]; ring

theorem decode_encode (width value : Nat) : decode (encode width value) = value % 256 ^ width := by
  induction width with
  | zero => simp [encode, decode, Nat.mod_one]
  | succ width ih =>
      have digit : (UInt8.ofNat (value / 256 ^ width)).toNat = value / 256 ^ width % 256 := by
        simp
      rw [encode, decode, ih, digit, encode_length, pow_succ, Nat.mod_mul]
      ring

theorem encode_mod (width value : Nat) :
    encode width (value % 256 ^ width) = encode width value := by
  suffices general : ∀ low, low ≤ width →
      encode low (value % 256 ^ width) = encode low value from general width (Nat.le_refl _)
  intro low bound
  induction low with
  | zero => rfl
  | succ low ih =>
      have split : value % 256 ^ width / 256 ^ low % 256 = value / 256 ^ low % 256 := by
        have shape : 256 ^ width = 256 ^ low * (256 * 256 ^ (width - low - 1)) := by
          rw [← pow_succ', ← pow_add]
          congr 1
          omega
        rw [shape, Nat.mod_mul_right_div_self, Nat.mod_mul_right_mod]
      have digit : UInt8.ofNat (value % 256 ^ width / 256 ^ low) =
          UInt8.ofNat (value / 256 ^ low) := by
        apply UInt8.toNat_inj.mp
        simpa using split
      rw [encode, encode, digit, ih (by omega)]

theorem encode_decode (bytes : List UInt8) : encode bytes.length (decode bytes) = bytes := by
  induction bytes with
  | nil => rfl
  | cons byte rest ih =>
      have bound := decode_lt rest
      have high :
          (byte.toNat * 256 ^ rest.length + decode rest) / 256 ^ rest.length = byte.toNat := by
        rw [Nat.mul_comm, Nat.mul_add_div (Nat.pow_pos (by decide)), Nat.div_eq_of_lt bound,
          Nat.add_zero]
      have low :
          (byte.toNat * 256 ^ rest.length + decode rest) % 256 ^ rest.length = decode rest := by
        rw [Nat.mul_comm, Nat.mul_add_mod, Nat.mod_eq_of_lt bound]
      rw [List.length_cons, encode, decode, high, ← encode_mod, low, ih]
      simp

theorem decode_field (front rest : List UInt8) (width value : Nat) (fits : value < 256 ^ width) :
    decode (((front ++ (encode width value ++ rest)).drop front.length).take width) = value := by
  rw [List.drop_left, List.take_left' (encode_length width value), decode_encode,
    Nat.mod_eq_of_lt fits]

theorem decode_field_lt (bytes : List UInt8) (index width : Nat) :
    decode ((bytes.drop index).take width) < 256 ^ width :=
  Nat.lt_of_lt_of_le (decode_lt _)
    (Nat.pow_le_pow_right (by decide) (List.length_take_le width (bytes.drop index)))

theorem encode_field (bytes : List UInt8) (index width : Nat)
    (inside : index + width ≤ bytes.length) :
    encode width (decode ((bytes.drop index).take width)) ++ bytes.drop (index + width) =
      bytes.drop index := by
  have size : ((bytes.drop index).take width).length = width := by
    rw [List.length_take, List.length_drop]
    omega
  have whole := encode_decode ((bytes.drop index).take width)
  rw [size] at whole
  rw [whole, ← List.drop_drop, List.take_append_drop]

end Toolkit.BigEndian
