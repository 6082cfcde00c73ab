import Mathlib.Algebra.BigOperators.Group.Finset.Basic
import Mathlib.Data.List.TakeDrop
import MotteSeed.Toolkit.ByteImage

/-! Parts of a sequence placed in the images of a store. Parts that lie in one image must
not overlap, so no value can stand in the parts more often than in the images. -/
namespace Toolkit.Placement
open ByteImage

variable {Key α : Type}

structure Part (Key α : Type) where
  key : Key
  offset : Nat
  content : List α

def Part.LiesIn (part : Part Key α) (store : Key → List α) : Prop :=
  part.offset + part.content.length ≤ (store part.key).length ∧
    slice (store part.key) part.offset part.content.length = part.content

def Part.Apart (first second : Part Key α) : Prop :=
  first.key = second.key →
    first.offset + first.content.length ≤ second.offset ∨
      second.offset + second.content.length ≤ first.offset

structure Placed (store : Key → List α) (parts : List (Part Key α)) : Prop where
  lie : ∀ part ∈ parts, part.LiesIn store
  apart : parts.Pairwise Part.Apart

section Counts

variable [DecidableEq α] (value : α)

theorem count_overwrite (image : List α) (offset : Nat) (data : List α) :
    (overwrite image offset data).count value + (slice image offset data.length).count value =
      image.count value + data.count value := by
  have cut : image.take offset ++ slice image offset data.length ++
      image.drop (offset + data.length) = image := by
    rw [slice, ← List.drop_drop, List.append_assoc, List.take_append_drop, List.take_append_drop]
  have whole := congrArg (List.count value) cut
  rw [List.count_append, List.count_append] at whole
  rw [overwrite, List.count_append, List.count_append]
  omega

variable (keys : Finset Key) (store : Key → List α)

def occurrences : Nat := ∑ key ∈ keys, (store key).count value

theorem occurrences_none (absent : ∀ key ∈ keys, value ∉ store key) :
    occurrences value keys store = 0 :=
  Finset.sum_eq_zero fun key member => List.count_eq_zero.mpr (absent key member)

theorem occurrences_update [DecidableEq Key] (key : Key) (listed : key ∈ keys) (image : List α) :
    occurrences value keys (Function.update store key image) + (store key).count value =
      occurrences value keys store + image.count value := by
  rw [occurrences, occurrences, ← Finset.add_sum_erase keys _ listed,
    ← Finset.add_sum_erase keys (fun key => (store key).count value) listed,
    Function.update_self]
  have others : ∑ other ∈ keys.erase key,
      (Function.update store key image other).count value =
        ∑ other ∈ keys.erase key, (store other).count value :=
    Finset.sum_congr rfl fun other member => by
      rw [Function.update_of_ne (Finset.ne_of_mem_erase member)]
  rw [others]
  omega

end Counts

section Blanked

variable [DecidableEq Key] (blank : α)

def blanked (store : Key → List α) (part : Part Key α) : Key → List α :=
  Function.update store part.key
    (overwrite (store part.key) part.offset (List.replicate part.content.length blank))

theorem lies_blanked (store : Key → List α) (part other : Part Key α)
    (here : part.LiesIn store) (there : other.LiesIn store) (apart : part.Apart other) :
    other.LiesIn (blanked blank store part) := by
  have width : (List.replicate part.content.length blank).length = part.content.length :=
    List.length_replicate
  have inside := here.1
  by_cases same : part.key = other.key
  · rw [Part.LiesIn, blanked, ← same, Function.update_self,
      overwrite_length _ _ _ (by rwa [width]), slice_overwrite_disjoint _ _ _ _ _ (by omega), same]
    · exact there
    · rw [width]
      exact (apart same).symm
  · rwa [Part.LiesIn, blanked, Function.update_of_ne (Ne.symm same)]

theorem placed_blanked (store : Key → List α) (part : Part Key α) (rest : List (Part Key α))
    (placed : Placed store (part :: rest)) : Placed (blanked blank store part) rest := by
  obtain ⟨apart, later⟩ := List.pairwise_cons.mp placed.apart
  refine ⟨fun other member => ?_, later⟩
  exact lies_blanked blank store part other (placed.lie part List.mem_cons_self)
    (placed.lie other (List.mem_cons_of_mem part member)) (apart other member)

/-- No value stands in placed parts more often than in the images they are placed in. -/
theorem placed_count [DecidableEq α] (value : α) (other : blank ≠ value) (keys : Finset Key)
    (store : Key → List α) (parts : List (Part Key α)) (placed : Placed store parts)
    (listed : ∀ part ∈ parts, part.key ∈ keys) :
    (parts.map Part.content).flatten.count value ≤ occurrences value keys store := by
  induction parts generalizing store with
  | nil => exact Nat.zero_le _
  | cons part rest ih =>
      obtain ⟨inside, held⟩ := placed.lie part List.mem_cons_self
      have later := ih (blanked blank store part) (placed_blanked blank store part rest placed)
        fun next member => listed next (List.mem_cons_of_mem part member)
      have taken := count_overwrite value (store part.key) part.offset
        (List.replicate part.content.length blank)
      have updated := occurrences_update value keys store part.key
        (listed part List.mem_cons_self)
        (overwrite (store part.key) part.offset (List.replicate part.content.length blank))
      rw [List.length_replicate, held, List.count_replicate,
        if_neg (by simpa using other)] at taken
      rw [blanked] at later
      rw [List.map_cons, List.flatten_cons, List.count_append]
      omega

end Blanked

end Toolkit.Placement
