import Mathlib.Data.List.Basic
import Mathlib.Data.List.TakeWhile

/-! Queries of the form `name=value&name=value`, and the decimal numbers in them. A name
ends at the first equals sign, a field at the next ampersand. -/
namespace Toolkit.FormQuery

section Fields

abbrev Text := List UInt8

def writeField (field : Text × Text) : Text := field.1 ++ 61 :: field.2

def readField (text : Text) : Text × Text :=
  (text.takeWhile fun b => b != 61, (text.dropWhile fun b => b != 61).drop 1)

def write (fields : List (Text × Text)) : Text := [38].intercalate (fields.map writeField)

def read (text : Text) : List (Text × Text) := (text.splitOn 38).map readField

/-- A field that is found again: its name and its value hold no sign that ends them. -/
structure Plain (field : Text × Text) : Prop where
  name : 61 ∉ field.1 ∧ 38 ∉ field.1
  value : 38 ∉ field.2

theorem read_field_write (field : Text × Text) (plain : Plain field) :
    readField (writeField field) = field := by
  obtain ⟨name, value⟩ := field
  have unequal : ∀ b ∈ name, (b != 61) = true := by
    intro b member
    rw [bne_iff_ne]
    rintro rfl
    exact plain.name.1 member
  rw [readField, writeField, List.takeWhile_append_of_pos unequal,
    List.dropWhile_append_of_pos unequal]
  simp

theorem read_write (fields : List (Text × Text)) (some_field : fields ≠ [])
    (plain : ∀ field ∈ fields, Plain field) : read (write fields) = fields := by
  have unmarked : ∀ text ∈ fields.map writeField, 38 ∉ text := by
    intro text member
    obtain ⟨field, inside, rfl⟩ := List.mem_map.mp member
    obtain ⟨name, value⟩ := plain field inside
    rw [writeField, List.mem_append, List.mem_cons, not_or, not_or]
    exact ⟨name.2, by decide, value⟩
  rw [read, write, List.splitOn_intercalate 38 unmarked (by simpa using some_field),
    List.map_map]
  calc fields.map (readField ∘ writeField)
    _ = fields.map id := List.map_congr_left fun field inside =>
        read_field_write field (plain field inside)
    _ = fields := List.map_id fields

end Fields

section Numbers

def digits (number : Nat) : Text := (Nat.toDigits 10 number).map fun c => UInt8.ofNat c.toNat

def isDigit (b : UInt8) : Bool := 48 ≤ b && b ≤ 57

def number (text : Text) : Option Nat :=
  if text ≠ [] ∧ text.all isDigit then
    some (text.foldl (fun sofar b => 10 * sofar + (b.toNat - 48)) 0)
  else none

theorem digit_value (c : Char) (decimal : c.isDigit = true) :
    48 ≤ c.toNat ∧ c.toNat ≤ 57 ∧ (UInt8.ofNat c.toNat).toNat = c.toNat := by
  simp only [Char.isDigit, Bool.and_eq_true, decide_eq_true_eq] at decimal
  have low : 48 ≤ c.toNat := UInt32.le_iff_toNat_le.mp decimal.1
  have high : c.toNat ≤ 57 := UInt32.le_iff_toNat_le.mp decimal.2
  exact ⟨low, high, by rw [UInt8.toNat_ofNat', Nat.mod_eq_of_lt (by omega)]⟩

theorem digits_digit (value : Nat) (b : UInt8) (member : b ∈ digits value) :
    48 ≤ b.toNat ∧ b.toNat ≤ 57 := by
  obtain ⟨c, inside, rfl⟩ := List.mem_map.mp member
  obtain ⟨low, high, same⟩ :=
    digit_value c (Nat.isDigit_of_mem_toDigits (by decide) (by decide) inside)
  omega

theorem number_digits (value : Nat) : number (digits value) = some value := by
  have some_digit : digits value ≠ [] := by
    rw [digits, Ne, List.map_eq_nil_iff]
    exact Nat.toDigits_ne_nil
  have decimal : (digits value).all isDigit = true := by
    refine List.all_eq_true.mpr fun b member => ?_
    obtain ⟨low, high⟩ := digits_digit value b member
    simp only [isDigit, Bool.and_eq_true, decide_eq_true_eq]
    exact ⟨UInt8.le_iff_toNat_le.mpr low, UInt8.le_iff_toNat_le.mpr high⟩
  rw [number, if_pos ⟨some_digit, decimal⟩, digits, List.foldl_map]
  have folded : (Nat.toDigits 10 value).foldl
      (fun sofar c => 10 * sofar + ((UInt8.ofNat c.toNat).toNat - 48)) 0 =
        Nat.ofDigitChars 10 (Nat.toDigits 10 value) 0 := by
    rw [Nat.ofDigitChars_eq_foldl]
    refine List.foldl_ext _ _ 0 fun sofar c member => ?_
    rw [(digit_value c (Nat.isDigit_of_mem_toDigits (by decide) (by decide) member)).2.2]
    rfl
  rw [folded, Nat.ofDigitChars_toDigits (by decide) (by decide)]

end Numbers

end Toolkit.FormQuery
