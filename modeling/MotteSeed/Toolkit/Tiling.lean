import Mathlib.Data.Nat.Basic

/-! Cutting the range below a total into tiles of one size, the last one possibly
shorter. Tiles start at the multiples of the size, and each position of the range
lies in exactly one of them. -/
namespace Toolkit.Tiling

def tile (size total start : Nat) : Nat := min size (total - start)

def Aligned (size total offset : Nat) : Prop := offset % size = 0 ∨ total ≤ offset

theorem aligned_zero (size total : Nat) : Aligned size total 0 := Or.inl (Nat.zero_mod size)

theorem tile_pos (size total start : Nat) (positive : 0 < size) (inside : start < total) :
    0 < tile size total start := by
  unfold tile
  omega

theorem tile_end (size total start : Nat) (inside : start ≤ total) :
    start + tile size total start ≤ total := by
  unfold tile
  omega

theorem aligned_next (size total start : Nat) (aligned : start % size = 0) :
    Aligned size total (start + tile size total start) := by
  unfold tile
  by_cases short : size ≤ total - start
  · rw [Nat.min_eq_left short]
    exact Or.inl (by rw [Nat.add_mod_right, aligned])
  · exact Or.inr (by omega)

theorem aligned_stride (size total start : Nat) (aligned : start % size = 0) :
    Aligned size total (start + size) :=
  Or.inl (by rw [Nat.add_mod_right, aligned])

theorem next_start (size start other : Nat) (aligned : start % size = 0)
    (also : other % size = 0) (later : start < other) : start + size ≤ other := by
  have first := Nat.div_add_mod start size
  have second := Nat.div_add_mod other size
  rw [aligned] at first
  rw [also] at second
  have more : start / size + 1 ≤ other / size := by
    by_contra fewer
    have bound : size * (other / size) ≤ size * (start / size) :=
      Nat.mul_le_mul_left size (by omega)
    omega
  have scaled := Nat.mul_le_mul_left size more
  rw [Nat.mul_add] at scaled
  omega

theorem covered (size total position : Nat) (positive : 0 < size) (inside : position < total) :
    ∃ start, start % size = 0 ∧ start ≤ position ∧
      position < start + tile size total start := by
  have split := Nat.div_add_mod position size
  have small := Nat.mod_lt position positive
  refine ⟨size * (position / size), Nat.mul_mod_right _ _, by omega, ?_⟩
  unfold tile
  omega

theorem covered_once (size total position first second : Nat)
    (aligned : first % size = 0) (also : second % size = 0)
    (first_start : first ≤ position) (first_end : position < first + tile size total first)
    (second_start : second ≤ position) (second_end : position < second + tile size total second) :
    first = second := by
  unfold tile at first_end second_end
  rcases Nat.lt_trichotomy first second with less | same | more
  · have step := next_start size first second aligned also less
    omega
  · exact same
  · have step := next_start size second first also aligned more
    omega

end Toolkit.Tiling
