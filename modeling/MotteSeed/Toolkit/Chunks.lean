import Mathlib.Data.List.Basic

/-! Cutting a list into chunks of one size. Chunks of the right size are what a list
is cut into again after they are joined, and joining the chunks of a list of whole
chunks gives the list back. -/
namespace Toolkit.Chunks

universe u
variable {α : Type u}

def chunks (size : Nat) : Nat → List α → List (List α)
  | 0, _ => []
  | count + 1, items => items.take size :: chunks size count (items.drop size)

/-- All whole chunks; a shorter rest is left out. -/
def chunksExact (size : Nat) (items : List α) : List (List α) :=
  chunks size (items.length / size) items

theorem chunks_size (size count : Nat) (items : List α) (enough : count * size ≤ items.length) :
    ∀ chunk ∈ chunks size count items, chunk.length = size := by
  induction count generalizing items with
  | zero =>
      intro chunk member
      cases member
  | succ count ih =>
      rw [Nat.succ_mul] at enough
      intro chunk member
      rcases List.mem_cons.mp member with rfl | later
      · exact List.length_take_of_le (by omega)
      · apply ih (items.drop size) _ chunk later
        rw [List.length_drop]
        omega

theorem chunks_flatten (size count : Nat) (items : List α)
    (whole : items.length = count * size) : (chunks size count items).flatten = items := by
  induction count generalizing items with
  | zero =>
      rw [Nat.zero_mul] at whole
      exact (List.eq_nil_of_length_eq_zero whole).symm
  | succ count ih =>
      rw [Nat.succ_mul] at whole
      rw [chunks, List.flatten_cons, ih (items.drop size) (by rw [List.length_drop]; omega),
        List.take_append_drop]

theorem chunks_of_flatten (size : Nat) (parts : List (List α))
    (sizes : ∀ part ∈ parts, part.length = size) :
    chunks size parts.length parts.flatten = parts := by
  induction parts with
  | nil => rfl
  | cons part rest ih =>
      have first := sizes part List.mem_cons_self
      have later := ih fun other member => sizes other (List.mem_cons_of_mem part member)
      rw [List.length_cons, List.flatten_cons, chunks, ← first, List.take_left, List.drop_left,
        first, later]

theorem flatten_length (size : Nat) (parts : List (List α))
    (sizes : ∀ part ∈ parts, part.length = size) :
    parts.flatten.length = parts.length * size := by
  induction parts with
  | nil => rw [List.flatten_nil, List.length_nil, List.length_nil, Nat.zero_mul]
  | cons part rest ih =>
      rw [List.flatten_cons, List.length_append, sizes part List.mem_cons_self,
        ih fun other member => sizes other (List.mem_cons_of_mem part member),
        List.length_cons, Nat.succ_mul, Nat.add_comm]

theorem chunks_exact_size (size : Nat) (items : List α) :
    ∀ chunk ∈ chunksExact size items, chunk.length = size :=
  chunks_size size _ items (Nat.div_mul_le_self _ _)

theorem chunks_exact_flatten (size : Nat) (items : List α) (whole : size ∣ items.length) :
    (chunksExact size items).flatten = items :=
  chunks_flatten size _ items (Nat.div_mul_cancel whole).symm

theorem chunks_exact_of_flatten (size : Nat) (positive : 0 < size) (parts : List (List α))
    (sizes : ∀ part ∈ parts, part.length = size) :
    chunksExact size parts.flatten = parts := by
  rw [chunksExact, flatten_length size parts sizes, Nat.mul_div_cancel _ positive,
    chunks_of_flatten size parts sizes]

end Toolkit.Chunks
