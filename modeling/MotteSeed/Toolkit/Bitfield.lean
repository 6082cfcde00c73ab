import Mathlib.Data.Nat.Bitwise

/-! Byte lists as sets of positions. A byte holds eight positions, the first one in
its highest bit, and positions past the end are not in the set. -/
namespace Toolkit.Bitfield

def bit (bytes : List UInt8) (position : Nat) : Bool :=
  match bytes[position / 8]? with
  | some byte => byte.toNat.testBit (7 - position % 8)
  | none => false

def mark (bytes : List UInt8) (position : Nat) : List UInt8 :=
  bytes.modify (position / 8) fun byte => byte ||| (1 <<< UInt8.ofNat (7 - position % 8))

theorem single_bit (shift : Nat) (small : shift < 8) :
    (1 <<< UInt8.ofNat shift : UInt8).toNat = 2 ^ shift := by
  rw [UInt8.toNat_shiftLeft, UInt8.toNat_ofNat', UInt8.toNat_one, Nat.one_shiftLeft]
  have reduced : shift % 2 ^ 8 % 8 = shift := by omega
  have bound : 2 ^ shift < 2 ^ 8 := Nat.pow_lt_pow_right (by decide) small
  rw [reduced, Nat.mod_eq_of_lt bound]

theorem and_single_bit (byte : UInt8) (shift : Nat) (small : shift < 8) :
    byte &&& (1 <<< UInt8.ofNat shift) ≠ 0 ↔ byte.toNat.testBit shift = true := by
  rw [Ne, ← UInt8.toNat_inj, UInt8.toNat_and, single_bit shift small, UInt8.toNat_zero,
    Nat.and_two_pow]
  cases byte.toNat.testBit shift <;> simp

theorem or_single_bit (byte : UInt8) (shift other : Nat) (small : shift < 8) :
    (byte ||| (1 <<< UInt8.ofNat shift)).toNat.testBit other =
      (byte.toNat.testBit other || decide (shift = other)) := by
  rw [UInt8.toNat_or, single_bit shift small, Nat.testBit_or, Nat.testBit_two_pow]

theorem bit_inside (bytes : List UInt8) (position : Nat) (there : bit bytes position = true) :
    position < 8 * bytes.length := by
  unfold bit at there
  split at there
  · rename_i byte found
    have inside := (List.getElem?_eq_some_iff.mp found).1
    omega
  · cases there

@[simp] theorem mark_length (bytes : List UInt8) (position : Nat) :
    (mark bytes position).length = bytes.length := by
  rw [mark, List.length_modify]

theorem bit_mark (bytes : List UInt8) (position other : Nat) :
    bit (mark bytes position) other = true ↔
      bit bytes other = true ∨ (position = other ∧ other < 8 * bytes.length) := by
  unfold bit mark
  rw [List.getElem?_modify]
  cases found : bytes[other / 8]? with
  | none =>
      have past := List.getElem?_eq_none_iff.mp found
      simp
      omega
  | some byte =>
      have inside := (List.getElem?_eq_some_iff.mp found).1
      by_cases same : position / 8 = other / 8
      · simp only [Option.map_eq_map, Option.map_some, if_pos same,
          or_single_bit byte _ _ (by omega : 7 - position % 8 < 8), Bool.or_eq_true,
          decide_eq_true_eq]
        constructor
        · rintro (held | here)
          · exact Or.inl held
          · exact Or.inr (by omega)
        · rintro (held | ⟨rfl, -⟩)
          · exact Or.inl held
          · exact Or.inr rfl
      · simp only [Option.map_eq_map, Option.map_some, if_neg same, iff_self_or]
        rintro ⟨rfl, -⟩
        exact (same rfl).elim

theorem bit_mark_all (bytes : List UInt8) (positions : List Nat) (other : Nat) :
    bit (positions.foldl mark bytes) other = true ↔
      bit bytes other = true ∨ (other ∈ positions ∧ other < 8 * bytes.length) := by
  induction positions generalizing bytes with
  | nil => simp
  | cons first rest ih =>
      rw [List.foldl_cons, ih, bit_mark, mark_length, List.mem_cons]
      constructor
      · rintro ((held | ⟨rfl, inside⟩) | ⟨later, inside⟩)
        · exact Or.inl held
        · exact Or.inr ⟨Or.inl rfl, inside⟩
        · exact Or.inr ⟨Or.inr later, inside⟩
      · rintro (held | ⟨rfl | later, inside⟩)
        · exact Or.inl (Or.inl held)
        · exact Or.inl (Or.inr ⟨rfl, inside⟩)
        · exact Or.inr ⟨later, inside⟩

end Toolkit.Bitfield
