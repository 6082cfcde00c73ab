import MotteSeed.SharedFiles
import MotteSeed.Toolkit.Placement

/-! The room a write has. Neither branch of `write_piece` compares the data with what is
left of the torrent: one file grows under data that is too long, several files drop the
rest, and a file that does not start the torrent grows when the torrent's offset and its
share of the data do not fit into it. Two shares of one file are written over each other. -/
namespace MotteSeed.DiskRoom
open Toolkit Toolkit.Checked Toolkit.ByteImage Toolkit.Placement PeerWire TorrentMeta DiskFiles
  DiskImage SharedFiles
open Disk hiding openEntries writeFiles writeMultiFilePiece

/-- The data cut into one part for each entry, each part somewhere in the entry's file and
no two of them over each other. -/
def Stored (disk : SharedDisk) (data : Bytes) : Prop :=
  ∃ parts : List (Part Inode UInt8), parts.map Part.key = disk.inodes ∧
    (parts.map Part.content).flatten = data ∧ Placed disk.store parts

def share (start count before length : Nat) : Nat :=
  min (start + count) (before + length) - max start before

def shares (start count : Nat) : Nat → List (Inode × Nat) → List (Inode × Nat)
  | _, [] => []
  | before, (inode, length) :: rest =>
      (inode, share start count before length) :: shares start count (before + length) rest

def filled (parts : List (Inode × Nat)) : List (Inode × Nat) := parts.filter fun part => 0 < part.2

def applied (start : Nat) : List (Inode × Nat) → Store → Bytes → Store
  | [], store, _ => store
  | (inode, size) :: rest, store, data =>
      applied start rest
        (Function.update store inode (writeAt (store inode) start (data.take size)))
        (data.drop size)

section Shares

variable (start count : Nat)

theorem shares_keys (before : Nat) (declared : List (Inode × Nat)) :
    (shares start count before declared).map Prod.fst = declared.map Prod.fst := by
  induction declared generalizing before with
  | nil => rfl
  | cons entry rest ih => rw [shares, List.map_cons, List.map_cons, ih]

theorem shares_sum (before : Nat) (declared : List (Inode × Nat)) :
    ((shares start count before declared).map Prod.snd).sum =
      min (start + count) (before + (declared.map Prod.snd).sum) - max start before := by
  induction declared generalizing before with
  | nil =>
      rw [shares, List.map_nil, List.sum_nil]
      omega
  | cons entry rest ih =>
      rw [shares, List.map_cons, List.sum_cons, ih, List.map_cons, List.sum_cons, share]
      omega

theorem shares_append (before : Nat) (first second : List (Inode × Nat)) :
    shares start count before (first ++ second) =
      shares start count before first ++
        shares start count (before + (first.map Prod.snd).sum) second := by
  induction first generalizing before with
  | nil => rfl
  | cons entry rest ih =>
      rw [List.cons_append, shares, shares, ih, List.map_cons, List.sum_cons, Nat.add_assoc,
        List.cons_append]

theorem shares_early (before : Nat) (declared : List (Inode × Nat))
    (early : before + (declared.map Prod.snd).sum ≤ start) :
    ∀ part ∈ shares start count before declared, part.2 = 0 := by
  have none : ((shares start count before declared).map Prod.snd).sum = 0 := by
    rw [shares_sum]
    omega
  intro part member
  exact List.sum_eq_zero_iff_forall_eq_nat.mp none _ (List.mem_map_of_mem member)

end Shares

section Writes

theorem write_at_nil (file : Bytes) (offset : Nat) : writeAt file offset [] = file := if_pos rfl

theorem write_at_length (file : Bytes) (offset : Nat) (data : Bytes) (some : data ≠ []) :
    (writeAt file offset data).length = max file.length (offset + data.length) := by
  rw [writeAt, if_neg some]
  simp only [overwrite, List.length_append, List.length_take, List.length_drop,
    List.length_replicate]
  omega

theorem write_at_grows (file : Bytes) (offset : Nat) (data : Bytes) :
    file.length ≤ (writeAt file offset data).length := by
  by_cases empty : data = []
  · rw [empty, write_at_nil]
  · rw [write_at_length file offset data empty]
    exact Nat.le_max_left _ _

theorem write_at_slice (file : Bytes) (offset : Nat) (data : Bytes)
    (inside : offset + data.length ≤ file.length) :
    slice (writeAt file offset data) offset data.length = data := by
  rw [write_at_inside file offset data inside]
  exact slice_overwrite_same file offset data (by omega)

theorem write_at_count (file : Bytes) (offset : Nat) (data : Bytes) :
    (writeAt file offset data).count 1 ≤ file.count 1 + data.length := by
  unfold writeAt
  by_cases empty : data = []
  · rw [if_pos empty]
    exact Nat.le_add_right _ _
  · have counted := count_overwrite 1 (file ++ List.replicate (offset - file.length) 0) offset data
    have new : data.count 1 ≤ data.length := List.count_le_length
    rw [if_neg empty]
    rw [List.count_append, List.count_replicate, if_neg (by decide)] at counted
    omega

theorem write_ones_mark (file : Bytes) (offset size : Nat) (positive : 0 < size) :
    (writeAt file offset (List.replicate size 1))[offset]? = some 1 := by
  have here : List.replicate size (1 : UInt8) ≠ [] := by simpa using Nat.ne_of_gt positive
  have width : (List.replicate size (1 : UInt8)).length = size := List.length_replicate
  rw [writeAt, if_neg here, getElem_overwrite _ _ _ _ (by simp; omega), if_neg (by omega),
    if_pos (by omega), Nat.sub_self, List.getElem?_replicate, if_pos positive]

/-- Ones over a one add less than their number. -/
theorem write_ones_again (file : Bytes) (offset size : Nat) (positive : 0 < size)
    (marked : file[offset]? = some 1) :
    (writeAt file offset (List.replicate size 1)).count 1 + 1 ≤ file.count 1 + size := by
  obtain ⟨inside, -⟩ := List.getElem?_eq_some_iff.mp marked
  have counted := count_overwrite 1 file offset (List.replicate size 1)
  have there : 1 ∈ slice file offset size :=
    List.mem_of_getElem? (i := 0) (by rw [getElem_slice _ _ _ _ positive]; exact marked)
  have found := List.count_pos_iff.mpr there
  have blank : offset - file.length = 0 := by omega
  rw [writeAt, if_neg (by simpa using Nat.ne_of_gt positive), blank, List.replicate_zero,
    List.append_nil]
  rw [List.length_replicate, List.count_replicate_self] at counted
  omega

end Writes

section Applied

variable (start : Nat)

theorem applied_nil (parts : List (Inode × Nat)) (store : Store) :
    applied start parts store [] = store := by
  induction parts generalizing store with
  | nil => rfl
  | cons part rest ih =>
      rw [applied, List.take_nil, List.drop_nil, write_at_nil, Function.update_eq_self, ih]

theorem applied_append (first second : List (Inode × Nat)) (store : Store) (data : Bytes) :
    applied start (first ++ second) store data =
      applied start second (applied start first store data)
        (data.drop (first.map Prod.snd).sum) := by
  induction first generalizing store data with
  | nil => rw [List.nil_append, applied, List.map_nil, List.sum_nil, List.drop_zero]
  | cons part rest ih =>
      rw [List.cons_append, applied, applied, ih, List.drop_drop, List.map_cons, List.sum_cons]

theorem applied_idle (parts : List (Inode × Nat)) (store : Store) (data : Bytes)
    (idle : ∀ part ∈ parts, part.2 = 0) : applied start parts store data = store := by
  induction parts generalizing store data with
  | nil => rfl
  | cons part rest ih =>
      have none := idle part List.mem_cons_self
      rw [applied, none, List.take_zero, List.drop_zero, write_at_nil, Function.update_eq_self,
        ih store data fun other member => idle other (List.mem_cons_of_mem part member)]

theorem filled_cons (inode : Inode) (size : Nat) (rest : List (Inode × Nat)) :
    filled ((inode, size) :: rest) =
      if size = 0 then filled rest else (inode, size) :: filled rest := by
  rw [filled, List.filter_cons]
  by_cases none : size = 0
  · rw [if_pos none, if_neg (by simpa using none)]
    rfl
  · rw [if_neg none, if_pos (by simpa using Nat.pos_of_ne_zero none)]
    rfl

theorem applied_untouched (parts : List (Inode × Nat)) (store : Store) (data : Bytes)
    (inode : Inode) (absent : inode ∉ (filled parts).map Prod.fst) :
    applied start parts store data inode = store inode := by
  induction parts generalizing store data with
  | nil => rfl
  | cons part rest ih =>
      obtain ⟨first, size⟩ := part
      rw [filled_cons] at absent
      by_cases none : size = 0
      · rw [if_pos none] at absent
        rw [applied, none, List.take_zero, List.drop_zero, write_at_nil, Function.update_eq_self,
          ih store data absent]
      · rw [if_neg none, List.map_cons, List.mem_cons, not_or] at absent
        rw [applied, ih _ _ absent.2, Function.update_of_ne absent.1]

theorem applied_grows (parts : List (Inode × Nat)) (store : Store) (data : Bytes)
    (inode : Inode) : (store inode).length ≤ (applied start parts store data inode).length := by
  induction parts generalizing store data with
  | nil => exact Nat.le_refl _
  | cons part rest ih =>
      have later := ih (Function.update store part.1
        (writeAt (store part.1) start (data.take part.2))) (data.drop part.2)
      by_cases same : inode = part.1
      · subst same
        rw [Function.update_self] at later
        exact Nat.le_trans (write_at_grows _ start _) later
      · rwa [Function.update_of_ne same] at later

theorem applied_reaches (parts : List (Inode × Nat)) (store : Store) (data : Bytes)
    (enough : (parts.map Prod.snd).sum ≤ data.length) :
    ∀ part ∈ filled parts, start + part.2 ≤ (applied start parts store data part.1).length := by
  induction parts generalizing store data with
  | nil =>
      intro part member
      cases member
  | cons first rest ih =>
      obtain ⟨inode, size⟩ := first
      rw [List.map_cons, List.sum_cons] at enough
      intro part member
      have later := ih (Function.update store inode
        (writeAt (store inode) start (data.take size))) (data.drop size)
        (by rw [List.length_drop]; omega) part
      rw [filled_cons] at member
      by_cases none : size = 0
      · rw [if_pos none] at member
        exact later member
      · rw [if_neg none] at member
        rcases List.mem_cons.mp member with rfl | other
        · have taken : (data.take size).length = size := List.length_take_of_le (by omega)
          have written := write_at_length (store inode) start (data.take size)
            (List.ne_nil_of_length_pos (by omega))
          have grows := applied_grows start rest (Function.update store inode
            (writeAt (store inode) start (data.take size))) (data.drop size) inode
          rw [Function.update_self] at grows
          change start + size ≤ (applied start rest _ _ inode).length
          omega
        · exact later other

/-- Where the shares are: an empty one may stand at the start of its file. -/
def placements : List (Inode × Nat) → Bytes → List (Part Inode UInt8)
  | [], _ => []
  | (inode, size) :: rest, data =>
      ⟨inode, if size = 0 then 0 else start, data.take size⟩ :: placements rest (data.drop size)

theorem placements_keys (parts : List (Inode × Nat)) (data : Bytes) :
    (placements start parts data).map Part.key = parts.map Prod.fst := by
  induction parts generalizing data with
  | nil => rfl
  | cons part rest ih => rw [placements, List.map_cons, List.map_cons, ih]

theorem placements_content (parts : List (Inode × Nat)) (data : Bytes) :
    ((placements start parts data).map Part.content).flatten =
      data.take (parts.map Prod.snd).sum := by
  induction parts generalizing data with
  | nil => rw [List.map_nil, List.sum_nil, List.take_zero]; rfl
  | cons part rest ih =>
      rw [placements, List.map_cons, List.flatten_cons, ih, List.map_cons, List.sum_cons,
        List.take_add]

theorem placements_mem (parts : List (Inode × Nat)) (data : Bytes) (part : Part Inode UInt8)
    (member : part ∈ placements start parts data) :
    (part.offset = 0 ∧ part.content = []) ∨ part.key ∈ (filled parts).map Prod.fst := by
  induction parts generalizing data with
  | nil => cases member
  | cons first rest ih =>
      obtain ⟨inode, size⟩ := first
      rw [filled_cons]
      by_cases none : size = 0
      · rw [if_pos none]
        rcases List.mem_cons.mp member with rfl | later
        · exact Or.inl ⟨if_pos none, by subst none; rfl⟩
        · exact ih _ later
      · rw [if_neg none]
        rcases List.mem_cons.mp member with rfl | later
        · exact Or.inr List.mem_cons_self
        · exact (ih _ later).imp_right (List.mem_cons_of_mem _)

/-- Shares that fit into files of their own leave every length as it was and are all there. -/
theorem applied_placed (parts : List (Inode × Nat)) (store : Store) (data : Bytes)
    (enough : (parts.map Prod.snd).sum ≤ data.length)
    (fits : ∀ part ∈ filled parts, start + part.2 ≤ (store part.1).length)
    (distinct : ((filled parts).map Prod.fst).Nodup) :
    (∀ inode, (applied start parts store data inode).length = (store inode).length) ∧
      Placed (applied start parts store data) (placements start parts data) := by
  induction parts generalizing store data with
  | nil => exact ⟨fun _ => rfl, ⟨by simp [placements], List.Pairwise.nil⟩⟩
  | cons first rest ih =>
      obtain ⟨inode, size⟩ := first
      rw [List.map_cons, List.sum_cons] at enough
      rw [filled_cons] at fits distinct
      have left : (rest.map Prod.snd).sum ≤ (data.drop size).length := by
        rw [List.length_drop]
        omega
      by_cases none : size = 0
      · rw [if_pos none] at fits distinct
        obtain ⟨lengths, placed⟩ := ih store (data.drop size) left fits distinct
        rw [applied, placements, none, List.take_zero, write_at_nil, Function.update_eq_self,
          if_pos rfl]
        rw [none] at lengths placed
        refine ⟨lengths, ⟨List.forall_mem_cons.mpr ⟨⟨Nat.zero_le _, rfl⟩, placed.lie⟩,
          List.pairwise_cons.mpr ⟨fun other _ _ => Or.inl (Nat.zero_le _), placed.apart⟩⟩⟩
      · rw [if_neg none] at fits distinct
        obtain ⟨absent, others⟩ := List.nodup_cons.mp distinct
        have taken : (data.take size).length = size := List.length_take_of_le (by omega)
        have room : start + (data.take size).length ≤ (store inode).length := by
          rw [taken]
          exact fits _ List.mem_cons_self
        have kept : ∀ other, (Function.update store inode
            (writeAt (store inode) start (data.take size)) other).length =
              (store other).length := by
          intro other
          by_cases same : other = inode
          · rw [same, Function.update_self, write_at_inside _ _ _ room,
              overwrite_length _ _ _ room]
          · rw [Function.update_of_ne same]
        obtain ⟨lengths, placed⟩ := ih (Function.update store inode
          (writeAt (store inode) start (data.take size))) (data.drop size) left
          (fun part member => by
            rw [kept]
            exact fits part (List.mem_cons_of_mem _ member)) others
        refine ⟨fun other => (lengths other).trans (kept other),
          ⟨List.forall_mem_cons.mpr ⟨?_, placed.lie⟩,
            List.pairwise_cons.mpr ⟨fun other member same => ?_, placed.apart⟩⟩⟩
        · have still := applied_untouched start rest (Function.update store inode
            (writeAt (store inode) start (data.take size))) (data.drop size) inode absent
          rw [Function.update_self] at still
          rw [Part.LiesIn, if_neg none, applied, still, write_at_inside _ _ _ room,
            overwrite_length _ _ _ room, ← write_at_inside _ _ _ room]
          exact ⟨room, write_at_slice _ _ _ room⟩
        · rcases placements_mem start rest _ other member with ⟨zero, empty⟩ | key
          · exact Or.inr (by rw [zero, empty]; exact Nat.zero_le _)
          · rw [← same] at key
            exact absurd key absent

end Applied

section Ones

variable (start : Nat) (keys : Finset Inode)

theorem take_ones (count size : Nat) (enough : size ≤ count) :
    (List.replicate count (1 : UInt8)).take size = List.replicate size 1 := by
  rw [List.take_replicate, Nat.min_eq_left enough]

theorem update_ones (store : Store) (inode : Inode) (listed : inode ∈ keys) (data : Bytes) :
    occurrences 1 keys (Function.update store inode (writeAt (store inode) start data)) ≤
      occurrences 1 keys store + data.length := by
  have updated := occurrences_update 1 keys store inode listed (writeAt (store inode) start data)
  have written := write_at_count (store inode) start data
  omega

theorem applied_ones (parts : List (Inode × Nat)) (store : Store) (data : Bytes)
    (listed : ∀ part ∈ parts, part.1 ∈ keys) :
    occurrences 1 keys (applied start parts store data) ≤
      occurrences 1 keys store + (parts.map Prod.snd).sum := by
  induction parts generalizing store data with
  | nil => exact Nat.le_refl _
  | cons part rest ih =>
      have first := update_ones start keys store part.1 (listed part List.mem_cons_self)
        (data.take part.2)
      have later := ih (Function.update store part.1
        (writeAt (store part.1) start (data.take part.2))) (data.drop part.2)
        fun other member => listed other (List.mem_cons_of_mem part member)
      have taken : (data.take part.2).length ≤ part.2 := List.length_take_le _ _
      rw [applied, List.map_cons, List.sum_cons]
      omega

theorem applied_marked (parts : List (Inode × Nat)) (store : Store) (count : Nat)
    (enough : (parts.map Prod.snd).sum ≤ count) (listed : ∀ part ∈ parts, part.1 ∈ keys)
    (inode : Inode) (again : inode ∈ (filled parts).map Prod.fst)
    (marked : (store inode)[start]? = some 1) :
    occurrences 1 keys (applied start parts store (List.replicate count 1)) + 1 ≤
      occurrences 1 keys store + (parts.map Prod.snd).sum := by
  induction parts generalizing store count with
  | nil => cases again
  | cons part rest ih =>
      obtain ⟨first, size⟩ := part
      rw [List.map_cons, List.sum_cons] at enough ⊢
      rw [filled_cons] at again
      have here := listed (first, size) List.mem_cons_self
      have there : ∀ other ∈ rest, other.1 ∈ keys :=
        fun other member => listed other (List.mem_cons_of_mem _ member)
      rw [applied, take_ones count size (by omega), List.drop_replicate]
      have left : (rest.map Prod.snd).sum ≤ count - size := by omega
      by_cases none : size = 0
      · rw [if_pos none] at again
        have later := ih store (count - size) left there again marked
        rw [none, List.replicate_zero, write_at_nil, Function.update_eq_self]
        rw [none] at later
        omega
      · rw [if_neg none] at again
        by_cases same : first = inode
        · subst same
          have covered := write_ones_again (store first) start size (by omega) marked
          have updated := occurrences_update 1 keys store first here
            (writeAt (store first) start (List.replicate size 1))
          have later := applied_ones start keys rest (Function.update store first
            (writeAt (store first) start (List.replicate size 1)))
            (List.replicate (count - size) 1) there
          omega
        · rcases List.mem_cons.mp again with now | more
          · exact absurd now.symm same
          · have added := update_ones start keys store first here (List.replicate size 1)
            have later := ih (Function.update store first
              (writeAt (store first) start (List.replicate size 1))) (count - size) left there more
              (by rwa [Function.update_of_ne (Ne.symm same)])
            rw [List.length_replicate] at added
            omega

/-- If two shares go to one file, a byte of the first is lost. -/
theorem applied_repeated (parts : List (Inode × Nat)) (store : Store) (count : Nat)
    (enough : (parts.map Prod.snd).sum ≤ count) (listed : ∀ part ∈ parts, part.1 ∈ keys)
    (repeated : ¬ ((filled parts).map Prod.fst).Nodup) :
    occurrences 1 keys (applied start parts store (List.replicate count 1)) + 1 ≤
      occurrences 1 keys store + (parts.map Prod.snd).sum := by
  induction parts generalizing store count with
  | nil => exact absurd List.nodup_nil repeated
  | cons part rest ih =>
      obtain ⟨inode, size⟩ := part
      rw [List.map_cons, List.sum_cons] at enough ⊢
      rw [filled_cons] at repeated
      have there : ∀ other ∈ rest, other.1 ∈ keys :=
        fun other member => listed other (List.mem_cons_of_mem _ member)
      have added := update_ones start keys store inode (listed _ List.mem_cons_self)
        (List.replicate size 1)
      rw [List.length_replicate] at added
      rw [applied, take_ones count size (by omega), List.drop_replicate]
      have left : (rest.map Prod.snd).sum ≤ count - size := by omega
      have tail := ih (Function.update store inode
        (writeAt (store inode) start (List.replicate size 1))) (count - size) left there
      by_cases none : size = 0
      · rw [if_pos none] at repeated
        have later := tail repeated
        omega
      · rw [if_neg none, List.map_cons, List.nodup_cons, not_and_or, not_not] at repeated
        rcases repeated with again | more
        · have later := applied_marked start keys rest (Function.update store inode
            (writeAt (store inode) start (List.replicate size 1))) (count - size) left there inode
            again (by rw [Function.update_self]; exact write_ones_mark _ _ _ (by omega))
          omega
        · have later := tail more
          omega

end Ones

section Loop

variable (profile : Profile)

theorem write_files_nothing (pieceOffset : Nat) (entries : List FileEntry)
    (inodes : List Inode) (store : Store) (fileOffset : Nat) :
    writeFiles profile pieceOffset entries inodes store fileOffset [] = (store, .ok ()) := by
  cases entries with
  | nil => rfl
  | cons entry rest => simp [writeFiles]

theorem write_files_applied (start count before : Nat) (entries : List FileEntry)
    (inodes : List Inode) (store : Store) (data : Bytes) (sized : inodes.length = entries.length)
    (within : ∀ entry ∈ entries.head?, start ≤ before + entry.length)
    (left : data.length = start + count - max start before) :
    writeFiles profile start entries inodes store (start - before) data =
      (applied start (shares start count before (inodes.zip (entries.map FileEntry.length)))
        store data, .ok ()) := by
  induction entries generalizing inodes before store data with
  | nil =>
      obtain rfl : inodes = [] := List.length_eq_zero_iff.mp sized
      rfl
  | cons entry rest ih =>
      cases inodes with
      | nil => cases sized
      | cons inode others =>
          have reach : start ≤ before + entry.length := within entry rfl
          rw [List.map_cons, List.zip_cons_cons, shares, applied]
          by_cases empty : data = []
          · rw [empty, write_files_nothing, List.take_nil, List.drop_nil, write_at_nil,
              Function.update_eq_self, applied_nil]
          · have cut : min data.length (entry.length - (start - before)) =
                share start count before entry.length := by
              unfold share
              omega
            have past : start - (before + entry.length) = 0 := by omega
            have later := ih (before + entry.length) others
              (Function.update store inode (writeAt (store inode) start
                (data.take (share start count before entry.length))))
              (data.drop (share start count before entry.length)) (Nat.succ.inj sized)
              (fun other member => by omega) (by rw [List.length_drop, left, share]; omega)
            rw [past] at later
            simp only [writeFiles, if_neg empty, sub_exact profile 64 entry.length
              (start - before) (by omega), cut]
            exact later

/-- The entries in front of the piece get nothing. -/
theorem applied_behind (start count : Nat) (inodes : List Inode) (before after : List Nat) (store : Store)
    (data : Bytes) (sized : inodes.length = (before ++ after).length)
    (early : before.sum ≤ start) :
    applied start (shares start count 0 (inodes.zip (before ++ after))) store data =
      applied start (shares start count before.sum ((inodes.drop before.length).zip after))
        store data := by
  rw [List.length_append] at sized
  have heads : (inodes.take before.length).length = before.length := by
    rw [List.length_take]
    omega
  have halves : inodes.zip (before ++ after) =
      (inodes.take before.length).zip before ++ (inodes.drop before.length).zip after := by
    rw [← List.zip_append heads, List.take_append_drop]
  have lengths : (((inodes.take before.length).zip before).map Prod.snd).sum = before.sum := by
    rw [List.map_snd_zip (Nat.le_of_eq heads.symm)]
  have none : ((shares start count 0 ((inodes.take before.length).zip before)).map
      Prod.snd).sum = 0 := by
    rw [shares_sum, lengths]
    omega
  rw [halves, shares_append, applied_append,
    applied_idle _ _ _ _ (shares_early start count 0 _ (by omega)), none, List.drop_zero, lengths,
    Nat.zero_add]

end Loop

section Room

variable (profile : Profile) (layout : FileDetails) (pieceLength : Nat) (inodes : List Inode)
  (disk : SharedDisk) (settled : Settled layout pieceLength disk) (piece : UInt32)
  (small : pieceStart pieceLength piece < 2 ^ 32) (bounded : layout.totalSize < 2 ^ 64)
  (valid : pieceStart pieceLength piece < layout.totalSize)

/-- Either all of the data is in the files and no length has changed, or the call fails
and the files are as they were. -/
def Kept (data : Bytes) : Prop :=
  let written := disk.writePiece profile piece data
  (written.2 = .ok () ∧ Settled layout pieceLength written.1 ∧ Stored written.1 data) ∨
    (∃ fault, written.2 = .error fault) ∧ written.1.store = disk.store

def declared : List (Inode × Nat) := inodes.zip (fileLengths layout)

def written (count : Nat) : List (Inode × Nat) :=
  filled (shares (pieceStart pieceLength piece) count 0 (declared layout inodes))

/-- The data ends within the torrent, every share of it has room behind the offset of the
piece, and no two shares go to one file. -/
def Room (count : Nat) : Prop :=
  pieceStart pieceLength piece + count ≤ layout.totalSize ∧
    (∀ part ∈ written layout pieceLength inodes piece count,
      pieceStart pieceLength piece + part.2 ≤ heldLength (declared layout inodes) part.1) ∧
    ((written layout pieceLength inodes piece count).map Prod.fst).Nodup

instance (count : Nat) : Decidable (Room layout pieceLength inodes piece count) :=
  inferInstanceAs (Decidable (_ ∧ _))

theorem declared_keys (count : inodes.length = (fileLengths layout).length) :
    (declared layout inodes).map Prod.fst = inodes :=
  List.map_fst_zip (Nat.le_of_eq count)

theorem declared_lengths (count : inodes.length = (fileLengths layout).length) :
    ((declared layout inodes).map Prod.snd).sum = layout.totalSize := by
  rw [declared, List.map_snd_zip (Nat.le_of_eq count.symm), file_lengths_sum]

theorem parts_sum (named : inodes.length = (fileLengths layout).length) (count : Nat) :
    ((shares (pieceStart pieceLength piece) count 0 (declared layout inodes)).map Prod.snd).sum =
      min (pieceStart pieceLength piece + count) layout.totalSize -
        pieceStart pieceLength piece := by
  rw [shares_sum, declared_lengths layout inodes named]
  omega

include settled small in
theorem shared_start_product : (profile.mul 32 piece.toNat disk.pieceLength :
    Except (Fault DiskError) Nat) = .ok (pieceStart pieceLength piece) := by
  rw [settled.pieceLength, pieceStart]
  exact mul_exact profile 32 _ _ small

include settled small bounded valid in
theorem write_piece_applied (entries : List FileEntry) (multi : layout = .multiFile entries)
    (data : Bytes) :
    disk.writePiece profile piece data =
      ({ disk with
          store := applied (pieceStart pieceLength piece)
            (shares (pieceStart pieceLength piece) data.length 0
              (declared layout disk.inodes)) disk.store data }, .ok ()) := by
  have product := shared_start_product profile layout pieceLength disk settled piece small
  have named := settled.inodes
  have kind := settled.fileDetails
  have inside := valid
  rw [multi] at kind named bounded inside
  change (entries.map FileEntry.length).sum < _ at bounded
  change _ < (entries.map FileEntry.length).sum at inside
  rw [fileLengths, List.length_map] at named
  obtain ⟨before, entry, after, split, found, lower, upper⟩ :=
    find_file_found profile (pieceStart pieceLength piece) entries 0 0 (Nat.zero_le _) (by omega)
      (by omega)
  rw [Nat.zero_add, Nat.zero_add] at found
  rw [Nat.zero_add] at lower upper
  have count := congrArg List.length split
  rw [List.length_append, List.length_cons] at count
  have cut : entries.drop before.length = entry :: after := by rw [split, List.drop_left]
  have behind := applied_behind (pieceStart pieceLength piece) data.length
    disk.inodes (before.map FileEntry.length) ((entry :: after).map FileEntry.length) disk.store
    data (by rw [← List.map_append, ← split, List.length_map, named]) (by omega)
  have loop := write_files_applied profile (pieceStart pieceLength piece) data.length
    (before.map FileEntry.length).sum (entry :: after) (disk.inodes.drop before.length) disk.store
    data (by rw [List.length_drop, List.length_cons]; omega) (by rintro _ ⟨⟩; omega) (by omega)
  rw [← List.map_append, ← split, List.length_map] at behind
  rw [declared, multi, fileLengths, behind]
  simp only [SharedDisk.writePiece, writeMultiFilePiece, product, settled.totalSize,
    if_neg (Nat.not_le_of_lt valid), kind, found, cut, sub_exact profile 64 _ _ lower, loop,
    if_neg (show ¬ before.length ≥ entries.length by omega)]

include settled small valid in
theorem write_piece_single (length : Nat) (single : layout = .singleFile length) :
    ∃ inode, disk.inodes = [inode] ∧ (disk.store inode).length = length ∧ ∀ data,
      disk.writePiece profile piece data =
        ({ disk with
            store := Function.update disk.store inode
              (writeAt (disk.store inode) (pieceStart pieceLength piece) data) }, .ok ()) := by
  have named := settled.inodes
  have lengths := settled.lengths
  have kind := settled.fileDetails
  rw [single] at named lengths kind
  obtain ⟨inode, names⟩ := List.length_eq_one_iff.mp named
  rw [names] at lengths
  refine ⟨inode, names, ?_, fun data => ?_⟩
  · rw [lengths inode List.mem_cons_self]
    simp [fileLengths, heldLength]
  · have product := shared_start_product profile layout pieceLength disk settled piece small
    simp only [SharedDisk.writePiece, product, settled.totalSize,
      if_neg (Nat.not_le_of_lt valid), kind, names]

theorem single_room_iff (length : Nat) (inode : Inode) (count : Nat) :
    Room (.singleFile length) pieceLength [inode] piece count ↔
      pieceStart pieceLength piece + count ≤ length := by
  constructor
  · exact fun room => room.1
  · intro inside
    refine ⟨inside, ?_, ?_⟩
    · intro part member
      obtain ⟨here, -⟩ := List.mem_filter.mp member
      obtain rfl := List.mem_singleton.mp here
      have held : heldLength (declared (.singleFile length) [inode]) inode = length := by
        simp [declared, fileLengths, heldLength]
      rw [held, share]
      omega
    · have all := shares_keys (pieceStart pieceLength piece) count 0
        (declared (.singleFile length) [inode])
      have sub := (List.filter_sublist (p := fun part => 0 < part.2)
        (l := shares (pieceStart pieceLength piece) count 0
          (declared (.singleFile length) [inode]))).map Prod.fst
      rw [all] at sub
      exact sub.nodup (List.nodup_singleton inode)

theorem settled_update (store : Store) (settled : Settled layout pieceLength disk)
    (lengths : ∀ inode ∈ disk.inodes, (store inode).length = (disk.store inode).length) :
    Settled layout pieceLength { disk with store } :=
  ⟨settled.fileDetails, settled.pieceLength, settled.inodes,
    fun inode member => (lengths inode member).trans (settled.lengths inode member),
    settled.totalSize⟩

include settled small valid in
theorem single_kept_iff (length : Nat) (single : layout = .singleFile length) (data : Bytes) :
    Kept profile layout pieceLength disk piece data ↔
      Room layout pieceLength disk.inodes piece data.length := by
  obtain ⟨inode, names, size, wrote⟩ := write_piece_single profile layout pieceLength disk settled
    piece small valid length single
  have room : Room layout pieceLength disk.inodes piece data.length ↔
      pieceStart pieceLength piece + data.length ≤ length := by
    rw [single, names]
    exact single_room_iff pieceLength piece length inode data.length
  have listed : inode ∈ disk.inodes := by rw [names]; exact List.mem_cons_self
  rw [room, Kept, wrote data]
  dsimp only
  constructor
  · rintro (⟨-, still, -⟩ | ⟨⟨fault, failed⟩, -⟩)
    · have kept := (still.lengths inode listed).trans (settled.lengths inode listed).symm
      dsimp only at kept
      rw [Function.update_self, size] at kept
      by_cases empty : data = []
      · rw [single, FileDetails.totalSize] at valid
        rw [empty, List.length_nil]
        omega
      · rw [write_at_length _ _ data empty] at kept
        omega
    · cases failed
  · intro inside
    have fits : pieceStart pieceLength piece + data.length ≤ (disk.store inode).length := by omega
    have kept : (writeAt (disk.store inode) (pieceStart pieceLength piece) data).length =
        (disk.store inode).length := by
      rw [write_at_inside _ _ _ fits, overwrite_length _ _ _ fits]
    refine Or.inl ⟨rfl, settled_update layout pieceLength disk _ settled fun other member => ?_,
      [⟨inode, pieceStart pieceLength piece, data⟩], names.symm, by simp, ?_⟩
    · rw [names, List.mem_singleton] at member
      rw [member, Function.update_self, kept]
    · refine ⟨?_, List.pairwise_singleton _ _⟩
      intro part member
      obtain rfl := List.mem_singleton.mp member
      dsimp only [Part.LiesIn]
      rw [Function.update_self, kept]
      exact ⟨fits, write_at_slice _ _ data fits⟩

include settled small bounded valid in
theorem multi_kept (entries : List FileEntry) (multi : layout = .multiFile entries)
    (data : Bytes) (room : Room layout pieceLength disk.inodes piece data.length) :
    Kept profile layout pieceLength disk piece data := by
  obtain ⟨ends, fits, distinct⟩ := room
  have sum := parts_sum layout pieceLength disk.inodes piece settled.inodes data.length
  have keys := shares_keys (pieceStart pieceLength piece) data.length 0
    (declared layout disk.inodes)
  rw [declared_keys layout disk.inodes settled.inodes] at keys
  obtain ⟨lengths, placed⟩ := applied_placed (pieceStart pieceLength piece) _ disk.store data
    (by omega)
    (fun part member => by
      have listed : part.1 ∈ disk.inodes := by
        rw [← keys]
        exact List.mem_map_of_mem (List.mem_filter.mp member).1
      rw [settled.lengths part.1 listed]
      exact fits part member) distinct
  rw [Kept, write_piece_applied profile layout pieceLength disk settled piece small bounded valid
    entries multi data]
  refine Or.inl ⟨rfl, settled_update layout pieceLength disk _ settled fun inode _ =>
    lengths inode, _, ?_, ?_, placed⟩
  · rw [placements_keys, keys]
  · rw [placements_content, List.take_of_length_le (by omega)]

include settled small bounded valid in
theorem kept_of_room (data : Bytes)
    (room : Room layout pieceLength disk.inodes piece data.length) :
    Kept profile layout pieceLength disk piece data := by
  cases kind : layout with
  | singleFile length =>
      rw [← kind]
      exact (single_kept_iff profile layout pieceLength disk settled piece small valid length kind
        data).mpr room
  | multiFile entries =>
      rw [← kind]
      exact multi_kept profile layout pieceLength disk settled piece small bounded valid entries
        kind data room

def blankShared : SharedDisk where
  basePath := ⟨false, []⟩
  fileDetails := layout
  pieceLength
  inodes
  store inode := List.replicate (heldLength (declared layout inodes) inode) 0
  totalSize := layout.totalSize

theorem blank_shared_settled (named : inodes.length = (fileLengths layout).length) :
    Settled layout pieceLength (blankShared layout pieceLength inodes) :=
  ⟨rfl, rfl, named, fun _ _ => List.length_replicate, rfl⟩

variable (named : inodes.length = (fileLengths layout).length)

include small bounded valid named in
/-- On a disk of zeros the ones that are lost are missed. -/
theorem room_of_blank (count : Nat)
    (kept : Kept profile layout pieceLength (blankShared layout pieceLength inodes) piece
      (List.replicate count 1)) :
    Room layout pieceLength inodes piece count := by
  have settled := blank_shared_settled layout pieceLength inodes named
  have size : (List.replicate count (1 : UInt8)).length = count := List.length_replicate
  cases kind : layout with
  | singleFile length =>
      have room := (single_kept_iff profile layout pieceLength _ settled piece small valid length
        kind _).mp kept
      rw [size] at room
      rwa [← kind]
  | multiFile entries =>
      rw [← kind]
      have sum := parts_sum layout pieceLength inodes piece named count
      have keys := shares_keys (pieceStart pieceLength piece) count 0 (declared layout inodes)
      rw [declared_keys layout inodes named] at keys
      rw [Kept, write_piece_applied profile layout pieceLength _ settled piece small bounded valid
        entries kind _, size] at kept
      rcases kept with ⟨-, still, parts, files, whole, placed⟩ | ⟨⟨fault, failed⟩, -⟩
      · have listed : ∀ part ∈ shares (pieceStart pieceLength piece) count 0
            (declared layout inodes), part.1 ∈ inodes.toFinset := fun part member => by
          rw [List.mem_toFinset, ← keys]
          exact List.mem_map_of_mem member
        have found := placed_count 0 1 (by decide) inodes.toFinset _ parts placed
          fun part member => by
            have named : parts.map Part.key = inodes := files
            rw [List.mem_toFinset, ← named]
            exact List.mem_map_of_mem member
        rw [whole, List.count_replicate_self] at found
        have blank := occurrences_none 1 inodes.toFinset
          (blankShared layout pieceLength inodes).store fun inode _ held =>
            absurd (List.mem_replicate.mp held).2 (by decide)
        change count ≤ occurrences 1 inodes.toFinset (applied (pieceStart pieceLength piece)
          (shares (pieceStart pieceLength piece) count 0 (declared layout inodes))
          (blankShared layout pieceLength inodes).store (List.replicate count 1)) at found
        have most := applied_ones (pieceStart pieceLength piece) inodes.toFinset _
          (blankShared layout pieceLength inodes).store (List.replicate count 1) listed
        refine ⟨?_, ?_, ?_⟩
        · omega
        · intro part member
          have reach := applied_reaches (pieceStart pieceLength piece) _
            (blankShared layout pieceLength inodes).store (List.replicate count 1) (by omega) part
            member
          have there := List.mem_toFinset.mp (listed part (List.mem_filter.mp member).1)
          exact Nat.le_trans reach (Nat.le_of_eq (still.lengths part.1 there))
        · by_contra repeated
          have fewer := applied_repeated (pieceStart pieceLength piece) inodes.toFinset _
            (blankShared layout pieceLength inodes).store count (by omega) listed repeated
          omega
      · cases failed

def AlwaysKept (count : Nat) : Prop :=
  ∀ disk data, Settled layout pieceLength disk → disk.inodes = inodes → data.length = count →
    Kept profile layout pieceLength disk piece data

include small bounded valid named in
/-- A write is stored whole within the declared lengths exactly when there is room for it,
whichever of the entries share a file. -/
theorem always_kept_iff (count : Nat) :
    AlwaysKept profile layout pieceLength inodes piece count ↔
      Room layout pieceLength inodes piece count := by
  constructor
  · intro always
    apply room_of_blank profile layout pieceLength inodes piece small bounded valid named count
    exact always _ _ (blank_shared_settled layout pieceLength inodes named) rfl
      List.length_replicate
  · rintro room disk data settled rfl rfl
    exact kept_of_room profile layout pieceLength disk settled piece small bounded valid data room

theorem always_kept_first :
    AlwaysKept .checked twoFiles 2 [0, 1] 0 2 ↔ Room twoFiles 2 [0, 1] 0 2 :=
  always_kept_iff .checked twoFiles 2 [0, 1] 0 (by decide) (by decide) (by decide) rfl 2

/-- Two entries of two bytes that name one file: four bytes end within the torrent, but the
last two of them are written over the first two. -/
example : Room twoFiles 4 [0, 1] 0 4 ∧ ¬ Room twoFiles 4 [0, 0] 0 4 := by decide

/-- The last piece of three bytes is written with its full two: the file grows. -/
theorem short_piece_grows :
    Settled (.singleFile 3) 2 (blankShared (.singleFile 3) 2 [0]) ∧
      ((blankShared (.singleFile 3) 2 [0]).writePiece .checked 1 [7, 8]).1.store 0 =
        [0, 0, 7, 8] ∧
      ¬ Kept .checked (.singleFile 3) 2 (blankShared (.singleFile 3) 2 [0]) 1 [7, 8] := by
  have settled := blank_shared_settled (.singleFile 3) 2 [0] rfl
  refine ⟨settled, rfl, ?_⟩
  rw [single_kept_iff .checked (.singleFile 3) 2 _ settled 1 (by decide) (by decide) 3 rfl]
  decide

end Room

end MotteSeed.DiskRoom
