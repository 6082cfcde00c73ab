import Mathlib.Data.List.Basic
import Mathlib.Data.List.Induction

/-! Overwriting a range of a list in place. An image keeps its length when the
range lies inside it, positions outside the range keep their value, and an
overwrite of a concatenation falls apart at the seam. After a sequence of
overwrites a range holds what was written there last. -/
namespace Toolkit.ByteImage

variable {α : Type}

def overwrite (image : List α) (offset : Nat) (data : List α) : List α :=
  image.take offset ++ data ++ image.drop (offset + data.length)

def slice (image : List α) (offset length : Nat) : List α :=
  (image.drop offset).take length

@[simp] theorem overwrite_nil (image : List α) (offset : Nat) :
    overwrite image offset [] = image := by
  simp [overwrite]

theorem overwrite_length (image : List α) (offset : Nat) (data : List α)
    (inside : offset + data.length ≤ image.length) :
    (overwrite image offset data).length = image.length := by
  simp only [overwrite, List.length_append, List.length_take, List.length_drop]
  omega

theorem take_overwrite (image : List α) (offset : Nat) (data : List α)
    (inside : offset ≤ image.length) :
    (overwrite image offset data).take (offset + data.length) = image.take offset ++ data := by
  have front : (image.take offset ++ data).length = offset + data.length := by
    rw [List.length_append, List.length_take_of_le inside]
  rw [overwrite, ← front, List.take_left]

theorem getElem_overwrite (image : List α) (offset : Nat) (data : List α) (position : Nat)
    (inside : offset ≤ image.length) :
    (overwrite image offset data)[position]? =
      if position < offset then image[position]?
      else if position < offset + data.length then data[position - offset]?
      else image[position]? := by
  have front : (image.take offset ++ data).length = offset + data.length := by
    rw [List.length_append, List.length_take_of_le inside]
  have head : (image.take offset).length = offset := List.length_take_of_le inside
  unfold overwrite
  by_cases before : position < offset
  · rw [if_pos before, List.getElem?_append_left (by omega),
      List.getElem?_append_left (by omega), List.getElem?_take_of_lt before]
  · rw [if_neg before]
    by_cases within : position < offset + data.length
    · rw [if_pos within, List.getElem?_append_left (by omega),
        List.getElem?_append_right (by omega), head]
    · rw [if_neg within, List.getElem?_append_right (by omega), front, List.getElem?_drop]
      congr 1
      omega

theorem overwrite_left (left right : List α) (offset : Nat) (data : List α)
    (inside : offset + data.length ≤ left.length) :
    overwrite (left ++ right) offset data = overwrite left offset data ++ right := by
  have early : offset ≤ left.length := by omega
  simp [overwrite, List.take_append_of_le_length early, List.drop_append_of_le_length inside]

theorem overwrite_fill (filled data : List α) (blank : α) (offset room : Nat)
    (here : filled.length = offset) :
    overwrite (filled ++ List.replicate room blank) offset data =
      filled ++ data ++ List.replicate (room - data.length) blank := by
  subst here
  rw [overwrite, List.take_left, List.drop_append, List.drop_eq_nil_of_le (by omega),
    List.nil_append, Nat.add_sub_cancel_left, List.drop_replicate]

/-- A write that reaches past the seam is a write to the end of the left part
and a write of the remaining data at the start of the right part. -/
theorem overwrite_across (left right : List α) (offset : Nat) (data : List α) (room : Nat)
    (inside : offset + room = left.length) (enough : room ≤ data.length) :
    overwrite (left ++ right) offset data =
      overwrite left offset (data.take room) ++ overwrite right 0 (data.drop room) := by
  have early : offset ≤ left.length := by omega
  have width : (data.take room).length = room := List.length_take_of_le enough
  have tail : offset + data.length = left.length + (data.length - room) := by omega
  simp only [overwrite, List.take_append_of_le_length early, tail, List.drop_append]
  rw [List.drop_eq_nil_of_le (show left.length ≤ left.length + (data.length - room) by omega),
    width, inside, List.drop_length]
  simp only [List.nil_append, List.append_nil, List.take_zero, Nat.zero_add, List.length_drop,
    Nat.add_sub_cancel_left]
  simp only [List.append_assoc]
  rw [← List.append_assoc (data.take room), List.take_append_drop]

theorem slice_overwrite_same (image : List α) (offset : Nat) (data : List α)
    (inside : offset ≤ image.length) :
    slice (overwrite image offset data) offset data.length = data := by
  have head : (image.take offset).length = offset := List.length_take_of_le inside
  rw [slice, List.take_drop, take_overwrite image offset data inside, List.drop_left' head]

theorem slice_overwrite_disjoint (image : List α) (offset : Nat) (data : List α)
    (start length : Nat) (inside : offset ≤ image.length)
    (apart : start + length ≤ offset ∨ offset + data.length ≤ start) :
    slice (overwrite image offset data) start length = slice image start length := by
  apply List.ext_getElem?
  intro position
  simp only [slice, List.getElem?_take, List.getElem?_drop]
  by_cases within : position < length
  · rw [if_pos within, if_pos within, getElem_overwrite image offset data _ inside]
    rcases apart with before | after
    · rw [if_pos (by omega)]
    · rw [if_neg (by omega), if_neg (by omega)]
  · rw [if_neg within, if_neg within]

theorem slice_left (left right : List α) (offset length : Nat)
    (inside : offset + length ≤ left.length) :
    slice (left ++ right) offset length = slice left offset length := by
  have early : offset ≤ left.length := by omega
  rw [slice, slice, List.drop_append_of_le_length early,
    List.take_append_of_le_length (by rw [List.length_drop]; omega)]

theorem slice_right (left right : List α) (offset length : Nat) :
    slice (left ++ right) (left.length + offset) length = slice right offset length := by
  rw [slice, slice, List.drop_append, List.drop_eq_nil_of_le (by omega), List.nil_append,
    Nat.add_sub_cancel_left]

theorem slice_across (left right : List α) (offset room length : Nat)
    (inside : offset + room = left.length) (enough : room ≤ length) :
    slice (left ++ right) offset length =
      slice left offset room ++ slice right 0 (length - room) := by
  have early : offset ≤ left.length := by omega
  have width : (left.drop offset).length = room := by
    rw [List.length_drop]
    omega
  rw [slice, slice, slice, List.drop_append_of_le_length early, List.take_append, width,
    List.take_of_length_le (show (left.drop offset).length ≤ length by omega),
    List.take_of_length_le (show (left.drop offset).length ≤ room by omega), List.drop_zero]

theorem slice_slice (image : List α) (start length offset size : Nat)
    (inside : offset + size ≤ length) :
    slice (slice image start length) offset size = slice image (start + offset) size := by
  rw [slice, slice, slice, List.drop_take, List.drop_drop, List.take_take,
    Nat.min_eq_left (by omega)]

theorem getElem_slice (image : List α) (start length position : Nat)
    (inside : position < length) :
    (slice image start length)[position]? = image[start + position]? := by
  rw [slice, List.getElem?_take_of_lt inside, List.getElem?_drop]

theorem slices_ext (first second : List α) (size count : Nat)
    (lengths : first.length = second.length) (covered : first.length ≤ size * count)
    (same : ∀ i < count, slice first (i * size) size = slice second (i * size) size) :
    first = second := by
  apply List.ext_getElem?
  intro position
  by_cases inside : position < first.length
  · have some_room : 0 < size * count := by omega
    have positive := Nat.pos_of_mul_pos_right some_room
    have split := Nat.div_add_mod position size
    have within := Nat.mod_lt position positive
    have index : position / size < count := Nat.div_lt_of_lt_mul (by omega)
    rw [Nat.mul_comm] at split
    calc first[position]?
      _ = (slice first (position / size * size) size)[position % size]? := by
          rw [getElem_slice _ _ _ _ within, split]
      _ = (slice second (position / size * size) size)[position % size]? := by
          rw [same _ index]
      _ = second[position]? := by
          rw [getElem_slice _ _ _ _ within, split]
  · rw [List.getElem?_eq_none (by omega), List.getElem?_eq_none (by omega)]

theorem slice_append (image : List α) (start first second : Nat) :
    slice image start first ++ slice image (start + first) second =
      slice image start (first + second) := by
  rw [slice, slice, slice, ← List.drop_drop, List.take_add]

theorem slice_all (image : List α) (length : Nat) (whole : image.length ≤ length) :
    slice image 0 length = image := by
  rw [slice, List.drop_zero, List.take_of_length_le whole]

theorem slice_middle (before field after : List α) (offset length : Nat)
    (here : before.length = offset) (size : field.length = length) :
    slice (before ++ field ++ after) offset length = field := by
  subst here size
  rw [slice, List.append_assoc, List.drop_left, List.take_left]

section Sequences

def overwriteAll (image : List α) (writes : List (Nat × List α)) : List α :=
  writes.foldl (fun held write => overwrite held write.1 write.2) image

theorem overwrite_all_snoc (image : List α) (writes : List (Nat × List α))
    (write : Nat × List α) :
    overwriteAll image (writes ++ [write]) =
      overwrite (overwriteAll image writes) write.1 write.2 := by
  rw [overwriteAll, List.foldl_append]
  rfl

theorem overwrite_all_length (image : List α) (writes : List (Nat × List α))
    (inside : ∀ write ∈ writes, write.1 + write.2.length ≤ image.length) :
    (overwriteAll image writes).length = image.length := by
  induction writes using List.reverseRecOn with
  | nil => rfl
  | append_singleton earlier write ih =>
      have kept := ih fun other member => inside other (List.mem_append_left _ member)
      have fits := inside write (List.mem_append_right earlier List.mem_cons_self)
      rw [overwrite_all_snoc, overwrite_length _ _ _ (by rwa [kept]), kept]

/-- Where writes either fill the range or miss it, the last one that filled it stays. -/
theorem slice_overwrite_all (image : List α) (writes : List (Nat × List α)) (start length : Nat)
    (inside : ∀ write ∈ writes, write.1 + write.2.length ≤ image.length)
    (fills : ∀ write ∈ writes, write.1 = start → write.2.length = length)
    (misses : ∀ write ∈ writes, write.1 ≠ start →
      start + length ≤ write.1 ∨ write.1 + write.2.length ≤ start) :
    slice (overwriteAll image writes) start length =
      ((writes.reverse.find? fun write => write.1 = start).map Prod.snd).getD
        (slice image start length) := by
  induction writes using List.reverseRecOn with
  | nil => rfl
  | append_singleton earlier write ih =>
      have before : ∀ other ∈ earlier, other ∈ earlier ++ [write] :=
        fun other member => List.mem_append_left _ member
      have last : write ∈ earlier ++ [write] := List.mem_append_right earlier List.mem_cons_self
      have kept := overwrite_all_length image earlier fun other member =>
        inside other (before other member)
      have fits := inside write last
      rw [overwrite_all_snoc, List.reverse_append, List.reverse_singleton, List.singleton_append]
      by_cases same : write.1 = start
      · rw [List.find?_cons_of_pos (by simpa using same), ← same, ← fills write last same,
          slice_overwrite_same _ _ _ (by omega)]
        rfl
      · rw [List.find?_cons_of_neg (by simpa using same),
          slice_overwrite_disjoint _ _ _ _ _ (by omega) (misses write last same)]
        exact ih (fun other member => inside other (before other member))
          (fun other member => fills other (before other member))
          (fun other member => misses other (before other member))

end Sequences

end Toolkit.ByteImage
