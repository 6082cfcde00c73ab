import Mathlib.Data.List.Basic

/-! Percent-encoding. A code writes every byte either as itself or as an escape, a
percent sign and the two hexadecimal digits of its value. No character of a code begins
another one, so text is decoded from the front, one character after the other. -/
namespace Toolkit.Percent

section Text

def Unreserved (c : UInt8) : Prop :=
  (48 ≤ c ∧ c ≤ 57) ∨ (65 ≤ c ∧ c ≤ 90) ∨ (97 ≤ c ∧ c ≤ 122) ∨
    c = 45 ∨ c = 95 ∨ c = 46 ∨ c = 126

def UpperHex (c : UInt8) : Prop := (48 ≤ c ∧ c ≤ 57) ∨ (65 ≤ c ∧ c ≤ 70)

instance (c : UInt8) : Decidable (Unreserved c) := inferInstanceAs (Decidable (_ ∨ _))

def hexValue (c : UInt8) : Option UInt8 :=
  if 48 ≤ c ∧ c ≤ 57 then some (c - 48)
  else if 65 ≤ c ∧ c ≤ 70 then some (c - 55)
  else if 97 ≤ c ∧ c ≤ 102 then some (c - 87)
  else none

inductive Encoded : List UInt8 → Prop where
  | nil : Encoded []
  | kept (c : UInt8) (rest : List UInt8) : Unreserved c → Encoded rest → Encoded (c :: rest)
  | escaped (high low : UInt8) (rest : List UInt8) : UpperHex high → UpperHex low →
      Encoded rest → Encoded (37 :: high :: low :: rest)

/-- An escape stands for the byte of its two digits, any other character for itself. A
percent sign without two digits behind it is an error. -/
def decode : List UInt8 → Option (List UInt8)
  | [] => some []
  | c :: rest =>
      if c = 37 then
        match rest with
        | high :: low :: later =>
            match hexValue high, hexValue low with
            | some first, some second => (decode later).map ((first * 16 + second) :: ·)
            | _, _ => none
        | _ => none
      else (decode rest).map (c :: ·)

theorem unreserved_not_percent (c : UInt8) (plain : Unreserved c) : c ≠ 37 := by
  rintro rfl
  revert plain
  decide

theorem upper_hex_unreserved (c : UInt8) (digit : UpperHex c) : Unreserved c := by
  rcases digit with decimal | ⟨low, high⟩
  · exact Or.inl decimal
  · exact Or.inr (Or.inl ⟨low, UInt8.le_trans high (by decide)⟩)

theorem encoded_excludes (text : List UInt8) (encoded : Encoded text) (c : UInt8)
    (reserved : ¬ Unreserved c) (other : c ≠ 37) : c ∉ text := by
  induction encoded with
  | nil => exact List.not_mem_nil
  | kept first rest plain _ ih =>
      rw [List.mem_cons, not_or]
      refine ⟨?_, ih⟩
      rintro rfl
      exact reserved plain
  | escaped high low rest first second _ ih =>
      simp only [List.mem_cons, not_or]
      refine ⟨other, ?_, ?_, ih⟩
      · rintro rfl
        exact reserved (upper_hex_unreserved c first)
      · rintro rfl
        exact reserved (upper_hex_unreserved c second)

theorem decode_kept (c : UInt8) (rest : List UInt8) (plain : Unreserved c) :
    decode (c :: rest) = (decode rest).map (c :: ·) := by
  rw [decode.eq_def]
  exact if_neg (unreserved_not_percent c plain)

theorem decode_escaped (high low first second : UInt8) (rest : List UInt8)
    (one : hexValue high = some first) (two : hexValue low = some second) :
    decode (37 :: high :: low :: rest) = (decode rest).map ((first * 16 + second) :: ·) := by
  rw [decode, if_pos rfl]
  simp only [one, two]

example : decode [45, 37, 55, 101, 37, 52, 65] = some [45, 126, 74] := by decide

end Text

section Codes

inductive Writes (b : UInt8) : List UInt8 → Prop where
  | kept : Unreserved b → Writes b [b]
  | escaped (high low first second : UInt8) : UpperHex high → UpperHex low →
      hexValue high = some first → hexValue low = some second → first * 16 + second = b →
      Writes b [37, high, low]

variable (code : UInt8 → List UInt8)

theorem length_all (escapes : UInt8 → Bool)
    (width : ∀ b, (code b).length = if escapes b then 3 else 1) (bytes : List UInt8) :
    (bytes.flatMap code).length = bytes.length + (bytes.filter escapes).length * 2 := by
  induction bytes with
  | nil => rfl
  | cons b rest ih =>
      rw [List.flatMap_cons, List.length_append, ih, width, List.filter_cons]
      split
      · simp only [List.length_cons]
        omega
      · simp only [List.length_cons]
        omega

variable (writes : ∀ b, Writes b (code b))
include writes

theorem encoded_code (b : UInt8) (rest : List UInt8) (encoded : Encoded rest) :
    Encoded (code b ++ rest) := by
  have written := writes b
  generalize code b = text at written ⊢
  cases written with
  | kept plain => exact .kept b rest plain encoded
  | escaped high low first second upper lower _ _ _ =>
      exact .escaped high low rest upper lower encoded

/-- The decoder sees where a character ends, whatever is behind it. -/
theorem decode_code (b : UInt8) (rest : List UInt8) :
    decode (code b ++ rest) = (decode rest).map (b :: ·) := by
  have written := writes b
  generalize code b = text at written ⊢
  cases written with
  | kept plain => exact decode_kept b rest plain
  | escaped high low first second _ _ one two value =>
      rw [← value]
      exact decode_escaped high low first second rest one two

theorem encoded_all (bytes : List UInt8) : Encoded (bytes.flatMap code) := by
  induction bytes with
  | nil => exact .nil
  | cons b rest ih =>
      rw [List.flatMap_cons]
      exact encoded_code code writes b _ ih

theorem decode_all (bytes : List UInt8) : decode (bytes.flatMap code) = some bytes := by
  induction bytes with
  | nil => rfl
  | cons b rest ih =>
      rw [List.flatMap_cons, decode_code code writes b, ih, Option.map_some]

theorem encode_injective (first second : List UInt8)
    (same : first.flatMap code = second.flatMap code) : first = second := by
  have one := decode_all code writes first
  rw [same, decode_all code writes second] at one
  exact (Option.some.inj one).symm

end Codes

end Toolkit.Percent
