import MotteSeed.Disk

/-! How the loops of a multi-file disk go through its files: which file holds a position,
what the reading loop returns, and where the writing loop puts its data. -/
namespace MotteSeed.DiskFiles
open Toolkit Toolkit.Checked Toolkit.ByteImage PeerWire TorrentMeta Disk

def fileLengths : FileDetails → List Nat
  | .singleFile length => [length]
  | .multiFile files => files.map FileEntry.length

theorem file_lengths_sum (layout : FileDetails) : (fileLengths layout).sum = layout.totalSize := by
  cases layout with
  | singleFile length => simp [fileLengths, FileDetails.totalSize]
  | multiFile files => rfl

def firstLength (layout : FileDetails) : Nat :=
  ((fileLengths layout).find? fun length => 0 < length).getD 0

section Walks

variable (profile : Profile)

theorem find_file_found (pieceOffset : Nat) (entries : List FileEntry)
    (fileIndex currentOffset : Nat) (reached : currentOffset ≤ pieceOffset)
    (inside : pieceOffset < currentOffset + (entries.map FileEntry.length).sum)
    (fits : currentOffset + (entries.map FileEntry.length).sum < 2 ^ 64) :
    ∃ before entry after, entries = before ++ entry :: after ∧
      findFile profile pieceOffset entries fileIndex currentOffset =
        .ok (fileIndex + before.length, currentOffset + (before.map FileEntry.length).sum) ∧
      currentOffset + (before.map FileEntry.length).sum ≤ pieceOffset ∧
      pieceOffset < currentOffset + (before.map FileEntry.length).sum + entry.length := by
  induction entries generalizing fileIndex currentOffset with
  | nil =>
      simp only [List.map_nil, List.sum_nil] at inside
      omega
  | cons entry rest ih =>
      rw [List.map_cons, List.sum_cons] at inside fits
      have exact : (profile.add 64 currentOffset entry.length : Except (Fault DiskError) Nat) =
          .ok (currentOffset + entry.length) := add_exact profile 64 _ _ (by omega)
      by_cases found : pieceOffset < currentOffset + entry.length
      · refine ⟨[], entry, rest, rfl, ?_, by simpa using reached, by simpa using found⟩
        simp only [findFile, exact, bind, Except.bind, if_pos found, pure, Except.pure,
          List.length_nil, List.map_nil, List.sum_nil, Nat.add_zero]
      · obtain ⟨before, last, after, rfl, walked, lower, upper⟩ :=
          ih (fileIndex + 1) (currentOffset + entry.length) (by omega) (by omega) (by omega)
        refine ⟨entry :: before, last, after, rfl, ?_, ?_, ?_⟩
        · simp only [findFile, exact, bind, Except.bind, if_neg found, walked, List.length_cons,
            List.map_cons, List.sum_cons, Except.ok.injEq, Prod.mk.injEq]
          omega
        · rw [List.map_cons, List.sum_cons]
          omega
        · rw [List.map_cons, List.sum_cons]
          omega

theorem find_file_past (pieceOffset : Nat) (entries : List FileEntry)
    (fileIndex currentOffset : Nat)
    (past : currentOffset + (entries.map FileEntry.length).sum ≤ pieceOffset)
    (fits : currentOffset + (entries.map FileEntry.length).sum < 2 ^ 64) :
    findFile profile pieceOffset entries fileIndex currentOffset =
      .ok (fileIndex + entries.length, currentOffset + (entries.map FileEntry.length).sum) := by
  induction entries generalizing fileIndex currentOffset with
  | nil => rfl
  | cons entry rest ih =>
      rw [List.map_cons, List.sum_cons] at past fits
      have exact : (profile.add 64 currentOffset entry.length : Except (Fault DiskError) Nat) =
          .ok (currentOffset + entry.length) := add_exact profile 64 _ _ (by omega)
      have before : ¬ currentOffset + entry.length > pieceOffset := by omega
      simp only [findFile, exact, bind, Except.bind, if_neg before,
        ih (fileIndex + 1) (currentOffset + entry.length) (by omega) (by omega),
        List.length_cons, List.map_cons, List.sum_cons, Except.ok.injEq, Prod.mk.injEq]
      omega

theorem read_files_slice (entries : List FileEntry) (files : List Bytes)
    (fileOffset remaining : Nat)
    (sized : files.map List.length = entries.map FileEntry.length)
    (within : ∀ entry ∈ entries.head?, fileOffset ≤ entry.length)
    (inside : fileOffset + remaining ≤ files.flatten.length) :
    readFiles profile entries files fileOffset remaining =
      .ok (slice files.flatten fileOffset remaining) := by
  induction entries generalizing files fileOffset remaining with
  | nil =>
      obtain rfl : files = [] := by simpa using sized
      obtain rfl : remaining = 0 := by
        simp only [List.flatten_nil, List.length_nil] at inside
        omega
      simp [readFiles, slice]
  | cons entry rest ih =>
      cases files with
      | nil => cases sized
      | cons file others =>
          obtain ⟨size, sizes⟩ := List.cons.inj sized
          have start : fileOffset ≤ entry.length := within entry rfl
          rw [List.flatten_cons] at inside ⊢
          rw [List.length_append] at inside
          by_cases done : remaining = 0
          · rw [readFiles, if_pos done, done]
            simp [slice]
          · have read : readAt file fileOffset (min remaining (entry.length - fileOffset)) =
                .ok (slice file fileOffset (min remaining (entry.length - fileOffset))) :=
              if_pos (Or.inl (by omega))
            have later := ih others 0 (remaining - min remaining (entry.length - fileOffset))
              sizes (fun _ _ => Nat.zero_le _) (by omega)
            simp only [readFiles, if_neg done, sub_exact profile 64 _ _ start, read, later, bind,
              Except.bind, pure, Except.pure, Except.ok.injEq]
            -- The read ends in this file, or goes on at the start of the next one.
            by_cases short : remaining ≤ entry.length - fileOffset
            · rw [Nat.min_eq_left short, Nat.sub_self, slice_left _ _ _ _ (by omega)]
              simp [slice]
            · rw [Nat.min_eq_right (by omega)]
              exact (slice_across file others.flatten fileOffset _ remaining (by omega)
                (by omega)).symm

theorem write_at_inside (file : Bytes) (offset : Nat) (data : Bytes)
    (inside : offset + data.length ≤ file.length) :
    writeAt file offset data = overwrite file offset data := by
  unfold writeAt
  by_cases empty : data = []
  · rw [if_pos empty, empty, overwrite_nil]
  · rw [if_neg empty, Nat.sub_eq_zero_of_le (by omega), List.replicate_zero, List.append_nil]

theorem write_at_before (file : Bytes) (offset : Nat) (data : Bytes) (position : Nat)
    (held : position < file.length) (before : position < offset) :
    position < (writeAt file offset data).length ∧
      (writeAt file offset data)[position]? = file[position]? := by
  unfold writeAt
  by_cases empty : data = []
  · rw [if_pos empty]
    exact ⟨held, rfl⟩
  · have same : (overwrite (file ++ List.replicate (offset - file.length) 0) offset
        data)[position]? = file[position]? := by
      rw [getElem_overwrite _ _ _ _ (by simp; omega), if_pos before,
        List.getElem?_append_left held]
    rw [if_neg empty]
    refine ⟨?_, same⟩
    rw [List.getElem?_eq_getElem held] at same
    exact (List.getElem?_eq_some_iff.mp same).1

theorem write_files_step (pieceOffset : Nat) (entry : FileEntry) (entries : List FileEntry)
    (file : Bytes) (files : List Bytes) (fileOffset : Nat) (data : Bytes)
    (start : fileOffset ≤ entry.length) (some : data ≠ []) :
    writeFiles profile pieceOffset (entry :: entries) (file :: files) fileOffset data =
      let room := min data.length (entry.length - fileOffset)
      let later := writeFiles profile pieceOffset entries files 0 (data.drop room)
      (writeAt file pieceOffset (data.take room) :: later.1, later.2) := by
  simp only [writeFiles, if_neg some, sub_exact profile 64 _ _ start]

theorem write_files_nothing (pieceOffset : Nat) (entries : List FileEntry) (files : List Bytes)
    (fileOffset : Nat) :
    writeFiles profile pieceOffset entries files fileOffset [] = (files, .ok ()) := by
  cases entries with
  | nil => rfl
  | cons entry rest => simp [writeFiles]

theorem write_files_from_zero (entries : List FileEntry) (files : List Bytes) (data : Bytes)
    (sized : files.map List.length = entries.map FileEntry.length)
    (inside : data.length ≤ files.flatten.length) :
    ∃ written, writeFiles profile 0 entries files 0 data = (written, .ok ()) ∧
      written.map List.length = files.map List.length ∧
      written.flatten = overwrite files.flatten 0 data := by
  induction entries generalizing files data with
  | nil =>
      obtain rfl : files = [] := by simpa using sized
      obtain rfl : data = [] := by simpa using inside
      exact ⟨[], rfl, rfl, rfl⟩
  | cons entry rest ih =>
      by_cases empty : data = []
      · subst empty
        exact ⟨files, write_files_nothing profile 0 _ files 0, rfl, (overwrite_nil _ 0).symm⟩
      · cases files with
        | nil => cases sized
        | cons file others =>
            obtain ⟨size, sizes⟩ := List.cons.inj sized
            rw [List.flatten_cons, List.length_append] at inside
            have wrote := write_files_step profile 0 entry rest file others 0 data
              (Nat.zero_le _) empty
            dsimp only at wrote
            rw [Nat.sub_zero] at wrote
            have fits : 0 + (data.take (min data.length entry.length)).length ≤ file.length := by
              rw [List.length_take]
              omega
            obtain ⟨later, tail, kept, same⟩ := ih others (data.drop (min data.length entry.length))
              sizes (by rw [List.length_drop]; omega)
            rw [wrote, tail, write_at_inside file 0 _ fits]
            refine ⟨_, rfl, ?_, ?_⟩
            · rw [List.map_cons, List.map_cons, overwrite_length _ _ _ fits, kept]
            · rw [List.flatten_cons, List.flatten_cons, same]
              -- Offset zero is the right one for the next file too.
              by_cases short : data.length ≤ entry.length
              · rw [Nat.min_eq_left short, List.take_length, List.drop_length, overwrite_nil,
                  overwrite_left _ _ _ _ (by omega)]
              · rw [Nat.min_eq_right (by omega)]
                exact (overwrite_across file others.flatten 0 data entry.length (by omega)
                  (by omega)).symm

theorem write_files_within (entry : FileEntry) (entries : List FileEntry) (file : Bytes)
    (files : List Bytes) (fileOffset : Nat) (data : Bytes) (size : file.length = entry.length)
    (inside : fileOffset + data.length ≤ entry.length) :
    ∃ written, writeFiles profile fileOffset (entry :: entries) (file :: files) fileOffset data =
        (written, .ok ()) ∧
      written.map List.length = (file :: files).map List.length ∧
      written.flatten = overwrite (file :: files).flatten fileOffset data := by
  by_cases empty : data = []
  · subst empty
    exact ⟨file :: files, write_files_nothing profile _ _ _ _, rfl, (overwrite_nil _ _).symm⟩
  · have wrote := write_files_step profile fileOffset entry entries file files fileOffset data
      (by omega) empty
    dsimp only at wrote
    rw [Nat.min_eq_left (by omega), List.take_length, List.drop_length,
      write_files_nothing, write_at_inside file fileOffset data (by omega)] at wrote
    refine ⟨_, wrote, ?_, ?_⟩
    · rw [List.map_cons, List.map_cons, overwrite_length _ _ _ (by omega)]
    · rw [List.flatten_cons, List.flatten_cons, overwrite_left _ _ _ _ (by omega)]

theorem write_files_keep_head (pieceOffset : Nat) (positive : 0 < pieceOffset)
    (entries : List FileEntry) (files : List Bytes) (data : Bytes)
    (sized : files.map List.length = entries.map FileEntry.length) :
    (writeFiles profile pieceOffset entries files 0 data).1.flatten[0]? = files.flatten[0]? := by
  induction entries generalizing files data with
  | nil => rfl
  | cons entry rest ih =>
      by_cases empty : data = []
      · subst empty
        rw [write_files_nothing]
      · cases files with
        | nil => cases sized
        | cons file others =>
            obtain ⟨size, sizes⟩ := List.cons.inj sized
            have wrote := write_files_step profile pieceOffset entry rest file others 0 data
              (Nat.zero_le _) empty
            dsimp only at wrote
            rw [Nat.sub_zero] at wrote
            rw [wrote, List.flatten_cons, List.flatten_cons]
            by_cases none : entry.length = 0
            · -- An empty file takes nothing, whatever the offset.
              obtain rfl : file = [] := List.length_eq_zero_iff.mp (size.trans none)
              rw [none, Nat.min_zero, List.take_zero, List.drop_zero, writeAt, if_pos rfl,
                List.nil_append, List.nil_append]
              exact ih others data sizes
            · obtain ⟨longer, kept⟩ := write_at_before file pieceOffset
                (data.take (min data.length entry.length)) 0 (by omega) positive
              rw [List.getElem?_append_left longer, List.getElem?_append_left (by omega), kept]

theorem write_files_straight (pieceOffset fileOffset : Nat) (entry : FileEntry)
    (entries : List FileEntry) (file : Bytes) (files : List Bytes) (data : Bytes)
    (sized : (file :: files).map List.length = (entry :: entries).map FileEntry.length)
    (same : fileOffset = pieceOffset)
    (inside : pieceOffset + data.length ≤ (file :: files).flatten.length)
    (straight : pieceOffset = 0 ∨ pieceOffset + data.length ≤ entry.length) :
    ∃ written, writeFiles profile pieceOffset (entry :: entries) (file :: files) fileOffset data =
        (written, .ok ()) ∧
      written.map List.length = (file :: files).map List.length ∧
      written.flatten = overwrite (file :: files).flatten pieceOffset data := by
  subst same
  rcases straight with rfl | fits
  · exact write_files_from_zero profile _ _ data sized (by omega)
  · exact write_files_within profile entry entries file files _ data (List.cons.inj sized).1 fits

/-- A write that is not straight misses a byte of its range: the first one if the file
does not start the image, else the first one behind the file. -/
theorem write_files_crooked (pieceOffset fileOffset : Nat) (entry : FileEntry)
    (entries : List FileEntry) (file : Bytes) (files : List Bytes) (data : Bytes)
    (sized : (file :: files).map List.length = (entry :: entries).map FileEntry.length)
    (inside : fileOffset < entry.length) (some : data ≠ []) (skipped : Nat)
    (crooked : skipped = fileOffset ∧ fileOffset < pieceOffset ∨
      skipped = entry.length ∧ fileOffset = pieceOffset ∧ 0 < pieceOffset ∧
        entry.length < pieceOffset + data.length) :
    (writeFiles profile pieceOffset (entry :: entries) (file :: files) fileOffset
      data).1.flatten[skipped]? = (file :: files).flatten[skipped]? := by
  obtain ⟨size, sizes⟩ := List.cons.inj sized
  rw [write_files_step profile pieceOffset entry entries file files fileOffset data
    (Nat.le_of_lt inside) some]
  dsimp only
  rw [List.flatten_cons, List.flatten_cons]
  rcases crooked with ⟨rfl, behind⟩ | ⟨rfl, rfl, positive, past⟩
  · obtain ⟨longer, kept⟩ := write_at_before file pieceOffset
      (data.take (min data.length (entry.length - skipped))) skipped (by omega) behind
    rw [List.getElem?_append_left longer, List.getElem?_append_left (by omega), kept]
  -- The first file takes its part rightly; the others are written behind their first byte.
  · have fits : fileOffset + (data.take (min data.length (entry.length - fileOffset))).length ≤
        file.length := by
      rw [List.length_take]
      omega
    have width : (writeAt file fileOffset
        (data.take (min data.length (entry.length - fileOffset)))).length = entry.length := by
      rw [write_at_inside _ _ _ fits, overwrite_length _ _ _ fits, size]
    rw [List.getElem?_append_right (Nat.le_of_eq width),
      List.getElem?_append_right (Nat.le_of_eq size), width, size, Nat.sub_self]
    exact write_files_keep_head profile fileOffset positive entries files _ sizes

end Walks

theorem first_positive (before : List Nat) (length : Nat) (after : List Nat)
    (positive : 0 < length) :
    (before.sum = 0 →
      ((before ++ length :: after).find? fun other => 0 < other).getD 0 = length) ∧
    (before.sum ≠ 0 →
      ((before ++ length :: after).find? fun other => 0 < other).getD 0 ≤ before.sum) := by
  induction before with
  | nil =>
      rw [List.nil_append, List.find?_cons_of_pos (by simpa using positive)]
      exact ⟨fun _ => rfl, fun absurd => (absurd rfl).elim⟩
  | cons first rest ih =>
      rw [List.cons_append, List.sum_cons]
      by_cases empty : first = 0
      · rw [List.find?_cons_of_neg (by simpa using empty), empty, Nat.zero_add]
        exact ih
      · rw [List.find?_cons_of_pos (by simp; omega)]
        constructor
        · intro none
          omega
        · intro some
          exact Nat.le_add_right first rest.sum

/-- Where a position of the image lies: the file that holds it, and the files before. -/
structure Located (profile : Profile) (entries : List FileEntry) (files : List Bytes)
    (position : Nat) where
  before : List FileEntry
  entry : FileEntry
  after : List FileEntry
  heads : List Bytes
  file : Bytes
  tails : List Bytes
  entries_split : entries = before ++ entry :: after
  files_split : files = heads ++ file :: tails
  before_count : before.length = heads.length
  before_sum : (before.map FileEntry.length).sum = heads.flatten.length
  size : file.length = entry.length
  sizes : tails.map List.length = after.map FileEntry.length
  found : findFile profile position entries 0 0 = .ok (heads.length, heads.flatten.length)
  lower : heads.flatten.length ≤ position
  upper : position < heads.flatten.length + entry.length

theorem located (profile : Profile) (entries : List FileEntry) (files : List Bytes)
    (position : Nat) (sized : files.map List.length = entries.map FileEntry.length)
    (inside : position < (entries.map FileEntry.length).sum)
    (fits : (entries.map FileEntry.length).sum < 2 ^ 64) :
    Nonempty (Located profile entries files position) := by
  obtain ⟨before, entry, after, rfl, found, lower, upper⟩ :=
    find_file_found profile position entries 0 0 (Nat.zero_le _) (by omega) (by omega)
  rw [List.map_append, List.map_cons, List.map_eq_append_iff] at sized
  obtain ⟨heads, others, rfl, first, rest⟩ := sized
  obtain ⟨file, tails, rfl, size, sizes⟩ := List.map_eq_cons_iff.mp rest
  have count : before.length = heads.length := by
    have same := congrArg List.length first
    simpa using same.symm
  have sum : (before.map FileEntry.length).sum = heads.flatten.length := by
    rw [List.length_flatten, first]
  rw [Nat.zero_add, Nat.zero_add, count, sum] at found
  rw [Nat.zero_add, sum] at lower upper
  exact ⟨{ before, entry, after, heads, file, tails, entries_split := rfl, files_split := rfl,
           before_count := count, before_sum := sum, size, sizes, found, lower, upper }⟩

section Located

variable {profile : Profile} {entries : List FileEntry} {files : List Bytes} {position : Nat}
  (place : Located profile entries files position)

theorem Located.some : place.heads.length < entries.length := by
  have counted := congrArg List.length place.entries_split
  rw [List.length_append, List.length_cons, place.before_count] at counted
  omega

theorem Located.cut : entries.drop place.heads.length = place.entry :: place.after := by
  have dropped := congrArg (List.drop place.before.length) place.entries_split
  rwa [List.drop_left, place.before_count] at dropped

theorem Located.rest : files.drop place.heads.length = place.file :: place.tails := by
  have dropped := congrArg (List.drop place.heads.length) place.files_split
  rwa [List.drop_left] at dropped

theorem Located.front : files.take place.heads.length = place.heads := by
  have taken := congrArg (List.take place.heads.length) place.files_split
  rwa [List.take_left] at taken

theorem Located.flatten :
    files.flatten = place.heads.flatten ++ (place.file :: place.tails).flatten := by
  have joined := congrArg List.flatten place.files_split
  rwa [List.flatten_append] at joined

theorem Located.tail_sizes : (place.file :: place.tails).map List.length =
    (place.entry :: place.after).map FileEntry.length := by
  rw [List.map_cons, List.map_cons, place.size, place.sizes]

theorem Located.first_length :
    (place.heads.flatten.length = 0 → firstLength (.multiFile entries) = place.entry.length) ∧
    (place.heads.flatten.length ≠ 0 →
      firstLength (.multiFile entries) ≤ place.heads.flatten.length) := by
  have lower := place.lower
  have upper := place.upper
  have first := first_positive (place.before.map FileEntry.length) place.entry.length
    (place.after.map FileEntry.length) (by omega)
  have split := congrArg (List.map FileEntry.length) place.entries_split
  rw [List.map_append, List.map_cons] at split
  rwa [← split, place.before_sum] at first

end Located

section Reads

variable (profile : Profile) (disk : DiskIo) (piece : UInt32) (entries : List FileEntry)
  (sized : disk.files.map List.length = entries.map FileEntry.length)
  (bounded : (entries.map FileEntry.length).sum < 2 ^ 64)
  (small : piece.toNat * disk.pieceLength < 2 ^ 32)

include sized bounded small in
theorem read_multi_slice (length : Nat)
    (valid : piece.toNat * disk.pieceLength < (entries.map FileEntry.length).sum)
    (inside : piece.toNat * disk.pieceLength + length ≤ (entries.map FileEntry.length).sum) :
    readMultiFilePiece profile disk piece length entries =
      .ok (slice disk.files.flatten (piece.toNat * disk.pieceLength) length) := by
  have product : (profile.mul 32 piece.toNat disk.pieceLength : Except (Fault DiskError) Nat) =
      .ok (piece.toNat * disk.pieceLength) := mul_exact profile 32 _ _ small
  have room : disk.files.flatten.length = (entries.map FileEntry.length).sum := by
    rw [List.length_flatten, sized]
  generalize piece.toNat * disk.pieceLength = offset at *
  obtain ⟨place⟩ := located profile entries disk.files offset sized valid bounded
  have first := place.lower
  have last := place.upper
  have whole : offset = place.heads.flatten.length + (offset - place.heads.flatten.length) := by
    omega
  rw [place.flatten, List.length_append] at room
  have read := read_files_slice profile (place.entry :: place.after)
    (place.file :: place.tails) (offset - place.heads.flatten.length)
    length place.tail_sizes (by rintro _ ⟨⟩; omega) (by omega)
  have sliced := slice_right place.heads.flatten (place.file :: place.tails).flatten
    (offset - place.heads.flatten.length) length
  rw [← whole, ← place.flatten] at sliced
  simp only [readMultiFilePiece, product, place.found, if_neg (Nat.not_le_of_lt place.some),
    sub_exact profile 64 _ _ first, place.cut, place.rest, read, sliced, bind, Except.bind]

include bounded small in
theorem read_multi_past (length : Nat)
    (past : (entries.map FileEntry.length).sum ≤ piece.toNat * disk.pieceLength) :
    readMultiFilePiece profile disk piece length entries = .error (outOfBounds piece) := by
  have product : (profile.mul 32 piece.toNat disk.pieceLength : Except (Fault DiskError) Nat) =
      .ok (piece.toNat * disk.pieceLength) := mul_exact profile 32 _ _ small
  have walked := find_file_past profile (piece.toNat * disk.pieceLength) entries 0 0
    (by omega) (by omega)
  simp only [readMultiFilePiece, product, walked, Nat.zero_add, if_pos (Nat.le_refl _), bind,
    Except.bind]
  rfl

include sized bounded small in
/-- Every nonempty range inside the files is read whole, in a checked build too, and an
offset behind them is refused. -/
theorem read_multi_file_range :
    (∀ length, 0 < length →
      piece.toNat * disk.pieceLength + length ≤ (entries.map FileEntry.length).sum →
      readMultiFilePiece profile disk piece length entries =
        .ok (slice disk.files.flatten (piece.toNat * disk.pieceLength) length)) ∧
    ∀ length, (entries.map FileEntry.length).sum ≤ piece.toNat * disk.pieceLength →
      readMultiFilePiece profile disk piece length entries = .error (outOfBounds piece) := by
  constructor
  · intro length positive inside
    exact read_multi_slice profile disk piece entries sized bounded small length (by omega) inside
  · intro length past
    exact read_multi_past profile disk piece entries bounded small length past

def gappedEntries : List FileEntry := [⟨0, []⟩, ⟨2, []⟩, ⟨0, []⟩, ⟨3, []⟩]

def gappedDisk : DiskIo :=
  { basePath := ⟨false, []⟩, fileDetails := .multiFile gappedEntries, pieceLength := 2
    files := [[], [1, 2], [], [3, 4, 5]], totalSize := 5 }

theorem read_gapped_range :
    (∀ length, 0 < length → 1 * 2 + length ≤ (gappedEntries.map FileEntry.length).sum →
      readMultiFilePiece .checked gappedDisk 1 length gappedEntries =
        .ok (slice gappedDisk.files.flatten (1 * 2) length)) ∧
    ∀ length, (gappedEntries.map FileEntry.length).sum ≤ 1 * 2 →
      readMultiFilePiece .checked gappedDisk 1 length gappedEntries =
        .error (outOfBounds 1) :=
  read_multi_file_range .checked gappedDisk 1 gappedEntries rfl (by decide) (by decide)

end Reads

end MotteSeed.DiskFiles
