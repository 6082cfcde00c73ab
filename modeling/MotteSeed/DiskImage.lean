import MotteSeed.DiskFiles
import MotteSeed.Toolkit.Runs
import MotteSeed.Toolkit.Tiling

/-! The files of a torrent as one flat image. Reading follows the image. Writing does so
for the first piece and inside the first file that is not empty; every other write
goes to the wrong place in its file. -/
namespace MotteSeed.DiskImage
open Toolkit Toolkit.Checked Toolkit.Runs Toolkit.Tiling Toolkit.ByteImage PeerWire TorrentMeta
  Disk DiskFiles

/-- The disk of a layout, whatever its files hold. -/
structure Sized (layout : FileDetails) (pieceLength : Nat) (disk : DiskIo) : Prop where
  fileDetails : disk.fileDetails = layout
  pieceLength : disk.pieceLength = pieceLength
  lengths : disk.files.map List.length = fileLengths layout
  totalSize : disk.totalSize = layout.totalSize

def pieceStart (pieceLength : Nat) (piece : UInt32) : Nat := piece.toNat * pieceLength

def pieceSize (layout : FileDetails) (pieceLength : Nat) (piece : UInt32) : Nat :=
  tile pieceLength layout.totalSize (pieceStart pieceLength piece)

structure Write where
  piece : UInt32
  data : Bytes

def writes (profile : Profile) : Machine DiskIo Write (Except (Fault DiskError) Unit) where
  step disk call :=
    let written := disk.writePiece profile call.piece call.data
    some (written.1, [written.2])

def flatImage (pieceLength : Nat) (calls : List Write) (image : Bytes) : Bytes :=
  overwriteAll image (calls.map fun call => (pieceStart pieceLength call.piece, call.data))

def lastWritten (calls : List Write) (piece : UInt32) : Option Bytes :=
  (calls.reverse.find? fun call => call.piece = piece).map Write.data

/-- After the calls every file has its declared length, the files hold the flat image,
and every piece reads back as the last data written for it or else as it was. -/
structure Flat (profile : Profile) (layout : FileDetails) (pieceLength : Nat) (start : DiskIo)
    (calls : List Write) (disk : DiskIo) (results : List (Except (Fault DiskError) Unit)) :
    Prop where
  succeeded : ∀ result ∈ results, result = .ok ()
  lengths : disk.files.map List.length = fileLengths layout
  image : disk.files.flatten = flatImage pieceLength calls start.files.flatten
  reads : ∀ piece : UInt32, pieceStart pieceLength piece < layout.totalSize →
    disk.readPiece profile piece = .ok ((lastWritten calls piece).getD
      (slice start.files.flatten (pieceStart pieceLength piece)
        (pieceSize layout pieceLength piece)))

/-- Writing these pieces, with any data of their size, to any disk of the layout keeps
the files the flat image in every state along the way. -/
def AlwaysFlat (profile : Profile) (layout : FileDetails) (pieceLength : Nat)
    (pieces : List UInt32) : Prop :=
  ∀ start calls past reached results, Sized layout pieceLength start →
    calls.map Write.piece = pieces →
    (∀ call ∈ calls, call.data.length = pieceSize layout pieceLength call.piece) →
    past <+: calls → run (writes profile) start past = some (reached, results) →
    Flat profile layout pieceLength start past reached results

/-- The piece is the first one, or it ends within the first file that is not empty. -/
def Straight (layout : FileDetails) (pieceLength : Nat) (piece : UInt32) : Prop :=
  piece = 0 ∨
    pieceStart pieceLength piece + pieceSize layout pieceLength piece ≤ firstLength layout

instance (layout : FileDetails) (pieceLength : Nat) (piece : UInt32) :
    Decidable (Straight layout pieceLength piece) :=
  inferInstanceAs (Decidable (_ ∨ _))

section Opened

theorem set_len_length (content : Bytes) (length : Nat) :
    (setLen content length).length = length := by
  rw [setLen, List.length_append, List.length_take, List.length_replicate]
  omega

theorem open_sized_length (host : Host) (known : LexicalPath.UnixPath → Bool)
    (path : LexicalPath.UnixPath) (length : Nat) (ops : List FsOp) (file : Bytes)
    (opened : openSized host known path length = (ops, .ok file)) : file.length = length := by
  unfold openSized at opened
  split at opened
  · split at opened
    · cases opened
      exact set_len_length _ length
    · cases opened
  · cases opened

theorem open_entry_length (host : Host) (base : LexicalPath.UnixPath) (entry : FileEntry)
    (ops : List FsOp) (file : Bytes) (opened : openEntry host base entry = (ops, .ok file)) :
    file.length = entry.length := by
  unfold openEntry at opened
  split at opened
  · cases opened
  · rename_i filePath located
    dsimp only at opened
    split at opened
    · obtain ⟨-, same⟩ := Prod.mk.inj opened
      exact open_sized_length host (standing base) filePath entry.length _ file
        (Prod.ext rfl same)
    · cases opened

theorem open_entries_lengths (profile : Profile) (host : Host) (base : LexicalPath.UnixPath)
    (entries : List FileEntry) (files : List Bytes) (totalSize : Nat) (ops : List FsOp)
    (found : List Bytes × Nat)
    (fits : totalSize + (entries.map FileEntry.length).sum < 2 ^ 64)
    (opened : openEntries profile host base entries files totalSize = (ops, .ok found)) :
    found.1.map List.length = files.map List.length ++ entries.map FileEntry.length ∧
      found.2 = totalSize + (entries.map FileEntry.length).sum := by
  induction entries generalizing files totalSize ops with
  | nil =>
      cases opened
      simp
  | cons entry rest ih =>
      rw [List.map_cons, List.sum_cons] at fits
      cases first : openEntry host base entry with
      | mk before result =>
          cases result with
          | error fault => simp [openEntries, first] at opened
          | ok file =>
              have size := open_entry_length host base entry before file first
              simp only [openEntries, first] at opened
              rw [add_exact profile 64 totalSize entry.length (by omega)] at opened
              dsimp only at opened
              obtain ⟨-, tail⟩ := Prod.mk.inj opened
              obtain ⟨lengths, total⟩ := ih (files ++ [file]) (totalSize + entry.length) _
                (by omega) (Prod.ext rfl tail)
              refine ⟨by simp [lengths, size], ?_⟩
              rw [total, List.map_cons, List.sum_cons, Nat.add_assoc]

theorem new_sized (profile : Profile) (host : Host) (basePath : LexicalPath.UnixPath)
    (layout : FileDetails) (pieceLength : Nat) (disk : DiskIo)
    (fits : layout.totalSize < 2 ^ 64)
    (made : (DiskIo.new profile host basePath layout pieceLength).result = .ok disk) :
    Sized layout pieceLength disk := by
  unfold DiskIo.new at made
  dsimp only at made
  split at made
  · cases layout with
    | singleFile length =>
        dsimp only at made
        cases opened : openSized host (standing basePath)
            (basePath.push (fromStr "data")) length with
        | mk ops result =>
            cases result with
            | error fault => simp [opened, Except.map] at made
            | ok file =>
                simp only [opened, Except.map, Except.ok.injEq] at made
                subst made
                have size := open_sized_length host _ _ length ops file opened
                exact ⟨rfl, rfl, by simp [fileLengths, size], rfl⟩
    | multiFile files =>
        dsimp only at made
        cases opened : openEntries profile host basePath files [] 0 with
        | mk ops result =>
            cases result with
            | error fault => simp [opened, Except.map] at made
            | ok found =>
                simp only [opened, Except.map, Except.ok.injEq] at made
                subst made
                rw [FileDetails.totalSize] at fits
                obtain ⟨lengths, total⟩ := open_entries_lengths profile host basePath files [] 0
                  ops found (by omega) opened
                exact ⟨rfl, rfl, by simpa [fileLengths] using lengths,
                  by simpa [FileDetails.totalSize] using total⟩
  · cases made

end Opened

section Calls

variable (profile : Profile) (layout : FileDetails) (pieceLength : Nat)
  (positive : 0 < pieceLength)
  (narrow : ∀ piece : UInt32, pieceStart pieceLength piece < layout.totalSize →
    (piece.toNat + 1) * pieceLength < 2 ^ 32)

include positive narrow in
theorem total_narrow : layout.totalSize < 2 ^ 32 := by
  have split := Nat.div_add_mod (2 ^ 32 - 1) pieceLength
  have small := Nat.mod_lt (2 ^ 32 - 1) positive
  have word : (2 ^ 32 - 1) / pieceLength < 2 ^ 32 :=
    Nat.lt_of_le_of_lt (Nat.div_le_self _ _) (by decide)
  have index : (UInt32.ofNat ((2 ^ 32 - 1) / pieceLength)).toNat = (2 ^ 32 - 1) / pieceLength :=
    UInt32.toNat_ofNat_of_lt' word
  by_contra wide
  have last := narrow (UInt32.ofNat ((2 ^ 32 - 1) / pieceLength))
  rw [pieceStart, index, Nat.succ_mul, Nat.mul_comm _ pieceLength] at last
  have past := last (by omega)
  omega

variable (disk : DiskIo) (sized : Sized layout pieceLength disk) (piece : UInt32)
  (small : pieceStart pieceLength piece < 2 ^ 32) (bounded : layout.totalSize < 2 ^ 64)
  (valid : pieceStart pieceLength piece < layout.totalSize)

include positive narrow valid in
theorem piece_narrow : pieceStart pieceLength piece < 2 ^ 32 ∧ layout.totalSize < 2 ^ 64 := by
  have total := total_narrow layout pieceLength positive narrow
  exact ⟨Nat.lt_trans valid total, Nat.lt_trans total (by decide)⟩

include sized in
theorem sized_flatten : disk.files.flatten.length = layout.totalSize := by
  rw [List.length_flatten, sized.lengths, file_lengths_sum]

include positive valid in
theorem piece_inside : 0 < pieceSize layout pieceLength piece ∧
    pieceStart pieceLength piece + pieceSize layout pieceLength piece ≤ layout.totalSize :=
  ⟨tile_pos _ _ _ positive valid, tile_end _ _ _ (Nat.le_of_lt valid)⟩

include sized small in
theorem start_product : (profile.mul 32 piece.toNat disk.pieceLength :
    Except (Fault DiskError) Nat) = .ok (pieceStart pieceLength piece) := by
  rw [sized.pieceLength]
  exact mul_exact profile 32 _ _ small

include sized small bounded valid in
theorem read_files_range (length : Nat)
    (inside : pieceStart pieceLength piece + length ≤ layout.totalSize) :
    (match disk.fileDetails with
      | .singleFile _ =>
          match disk.files with
          | [] => throw .bounds
          | file :: _ => readAt file (pieceStart pieceLength piece) length
      | .multiFile files => readMultiFilePiece profile disk piece length files :
      Except (Fault DiskError) Bytes) =
      .ok (slice disk.files.flatten (pieceStart pieceLength piece) length) := by
  have room := sized_flatten layout pieceLength disk sized
  have lengths := sized.lengths
  rw [sized.fileDetails]
  cases layout with
  | singleFile declared =>
      obtain ⟨file, tails, files, size, none⟩ := List.map_eq_cons_iff.mp lengths
      obtain rfl : tails = [] := by simpa using none
      rw [files] at room ⊢
      rw [List.flatten_singleton] at room ⊢
      exact if_pos (Or.inl (by omega))
  | multiFile entries =>
      change (entries.map FileEntry.length).sum < _ at bounded
      change _ < (entries.map FileEntry.length).sum at valid
      change pieceStart pieceLength piece + length ≤ (entries.map FileEntry.length).sum at inside
      rw [pieceStart, ← sized.pieceLength] at small valid inside ⊢
      exact read_multi_slice profile disk piece entries lengths bounded small length valid inside

include positive sized small bounded valid in
theorem read_piece_slice (stop : (piece.toNat + 1) * pieceLength < 2 ^ 32) :
    disk.readPiece profile piece = .ok (slice disk.files.flatten (pieceStart pieceLength piece)
      (pieceSize layout pieceLength piece)) := by
  obtain ⟨-, inside⟩ := piece_inside layout pieceLength positive piece valid
  have read := read_files_range profile layout pieceLength disk sized piece small bounded valid
    (pieceSize layout pieceLength piece) inside
  have next : piece.toNat + 1 ≤ (piece.toNat + 1) * pieceLength :=
    Nat.le_mul_of_pos_right _ positive
  have product := start_product profile layout pieceLength disk sized piece small
  have last : (piece.toNat + 1) * pieceLength = pieceStart pieceLength piece + pieceLength :=
    Nat.succ_mul _ _
  rw [sized.pieceLength] at product
  simp only [DiskIo.readPiece, sized.pieceLength, sized.totalSize, product,
    if_neg (Nat.not_le_of_lt valid), add_exact profile 32 piece.toNat 1 (by omega),
    mul_exact profile 32 (piece.toNat + 1) pieceLength stop, bind, Except.bind]
  by_cases short : (piece.toNat + 1) * pieceLength > layout.totalSize
  · have size : pieceSize layout pieceLength piece =
        layout.totalSize - pieceStart pieceLength piece := Nat.min_eq_right (by omega)
    rw [if_pos short, sub_exact profile 64 _ _ (Nat.le_of_lt valid), ← size]
    exact read
  · have size : pieceSize layout pieceLength piece = pieceLength := Nat.min_eq_left (by omega)
    rw [size] at read ⊢
    rw [if_neg short]
    exact read

include sized small valid in
theorem write_piece_single (declared : Nat) (single : layout = .singleFile declared) :
    ∃ file, disk.files = [file] ∧ file.length = declared ∧ ∀ data,
      disk.writePiece profile piece data =
        ({ disk with files := [writeAt file (pieceStart pieceLength piece) data] }, .ok ()) := by
  have lengths := sized.lengths
  have kind := sized.fileDetails
  rw [single] at lengths kind
  obtain ⟨file, tails, files, size, none⟩ := List.map_eq_cons_iff.mp lengths
  obtain rfl : tails = [] := by simpa using none
  refine ⟨file, files, size, fun data => ?_⟩
  have product := start_product profile layout pieceLength disk sized piece small
  simp only [DiskIo.writePiece, product, sized.totalSize, if_neg (Nat.not_le_of_lt valid), kind,
    files]

include sized small bounded valid in
theorem write_piece_multi (entries : List FileEntry) (multi : layout = .multiFile entries) :
    ∃ place : Located profile entries disk.files (pieceStart pieceLength piece), ∀ data,
      let written := writeFiles profile (pieceStart pieceLength piece)
        (place.entry :: place.after) (place.file :: place.tails)
        (pieceStart pieceLength piece - place.heads.flatten.length) data
      disk.writePiece profile piece data =
        ({ disk with files := place.heads ++ written.1 }, written.2) := by
  have product := start_product profile layout pieceLength disk sized piece small
  have lengths := sized.lengths
  have kind := sized.fileDetails
  have inside := valid
  rw [multi] at lengths kind bounded inside
  change (entries.map FileEntry.length).sum < _ at bounded
  change _ < (entries.map FileEntry.length).sum at inside
  obtain ⟨place⟩ := located profile entries disk.files (pieceStart pieceLength piece) lengths
    inside (by omega)
  refine ⟨place, fun data => ?_⟩
  simp only [DiskIo.writePiece, writeMultiFilePiece, product, sized.totalSize,
    if_neg (Nat.not_le_of_lt valid), kind, place.found, if_neg (Nat.not_le_of_lt place.some),
    sub_exact profile 64 _ _ place.lower, place.cut, place.rest, place.front]

include positive valid in
theorem straight_place (entries : List FileEntry) (multi : layout = .multiFile entries)
    (files : List Bytes)
    (place : Located profile entries files (pieceStart pieceLength piece)) :
    Straight layout pieceLength piece ↔ place.heads.flatten.length = 0 ∧
      (pieceStart pieceLength piece = 0 ∨
        pieceStart pieceLength piece + pieceSize layout pieceLength piece ≤
          place.entry.length) := by
  obtain ⟨some, -⟩ := piece_inside layout pieceLength positive piece valid
  obtain ⟨same, bound⟩ := place.first_length
  have lower := place.lower
  have zero : pieceStart pieceLength piece = 0 ↔ piece = 0 := by
    rw [pieceStart, Nat.mul_eq_zero, ← UInt32.toNat_inj]
    simp
    omega
  rw [Straight, ← zero, multi]
  constructor
  · rintro (start | fits)
    · exact ⟨by omega, Or.inl start⟩
    · by_cases first : place.heads.flatten.length = 0
      · rw [same first] at fits
        exact ⟨first, Or.inr fits⟩
      · have short := bound first
        rw [multi] at some
        omega
  · rintro ⟨first, start | fits⟩
    · exact Or.inl start
    · exact Or.inr (by rwa [same first])

include positive valid in
theorem single_straight (declared : Nat) (single : layout = .singleFile declared) :
    Straight layout pieceLength piece := by
  obtain ⟨some, inside⟩ := piece_inside layout pieceLength positive piece valid
  have first : firstLength layout = layout.totalSize := by
    rw [single]
    rw [single, FileDetails.totalSize] at valid
    rw [firstLength, fileLengths, List.find?_cons_of_pos (by simp; omega)]
    rfl
  exact Or.inr (by rwa [first])

include positive narrow sized valid in
theorem straight_write (straight : Straight layout pieceLength piece) (data : Bytes)
    (full : data.length = pieceSize layout pieceLength piece) :
    ∃ files, disk.writePiece profile piece data = ({ disk with files := files }, .ok ()) ∧
      files.map List.length = disk.files.map List.length ∧
      files.flatten = overwrite disk.files.flatten (pieceStart pieceLength piece) data := by
  have room := sized_flatten layout pieceLength disk sized
  obtain ⟨small, bounded⟩ := piece_narrow layout pieceLength positive narrow piece valid
  obtain ⟨-, inside⟩ := piece_inside layout pieceLength positive piece valid
  cases kind : layout with
  | singleFile declared =>
      obtain ⟨file, files, size, wrote⟩ := write_piece_single profile layout pieceLength disk
        sized piece small valid declared kind
      rw [files, List.flatten_singleton] at room
      have fits : pieceStart pieceLength piece + data.length ≤ file.length := by omega
      refine ⟨_, wrote data, ?_, ?_⟩
      · rw [files, List.map_singleton, List.map_singleton, write_at_inside _ _ _ fits,
          overwrite_length _ _ _ fits]
      · rw [files, List.flatten_singleton, List.flatten_singleton, write_at_inside _ _ _ fits]
  | multiFile entries =>
      obtain ⟨place, wrote⟩ := write_piece_multi profile layout pieceLength disk sized piece
        small bounded valid entries kind
      obtain ⟨first, range⟩ := (straight_place profile layout pieceLength positive piece valid
        entries kind disk.files place).mp straight
      rw [place.flatten, List.length_append] at room
      obtain ⟨written, ran, kept, same⟩ := write_files_straight profile
        (pieceStart pieceLength piece)
        (pieceStart pieceLength piece - place.heads.flatten.length) place.entry place.after
        place.file place.tails data place.tail_sizes (by omega) (by omega) (by rwa [full])
      have call := wrote data
      rw [ran] at call
      refine ⟨place.heads ++ written, call, ?_, ?_⟩
      · have split := congrArg (List.map List.length) place.files_split
        rw [split, List.map_append, List.map_append, kept]
      -- Only empty files come before, so the offset in the file is the offset in the image.
      · have empty : place.heads.flatten = [] := List.length_eq_zero_iff.mp first
        rw [List.flatten_append, same, place.flatten, empty, List.nil_append, List.nil_append]

include positive narrow sized valid in
/-- A piece that is not straight has a byte that no write of it changes. -/
theorem crooked_write (crooked : ¬ Straight layout pieceLength piece) :
    ∃ position byte, pieceStart pieceLength piece ≤ position ∧
      position < pieceStart pieceLength piece + pieceSize layout pieceLength piece ∧
      disk.files.flatten[position]? = some byte ∧
      ∀ data, data.length = pieceSize layout pieceLength piece →
        (disk.writePiece profile piece data).1.files.flatten[position]? = some byte := by
  have room := sized_flatten layout pieceLength disk sized
  obtain ⟨small, bounded⟩ := piece_narrow layout pieceLength positive narrow piece valid
  obtain ⟨some, inside⟩ := piece_inside layout pieceLength positive piece valid
  cases kind : layout with
  | singleFile declared =>
      exact (crooked (single_straight layout pieceLength positive piece valid declared kind)).elim
  | multiFile entries =>
      obtain ⟨place, wrote⟩ := write_piece_multi profile layout pieceLength disk sized piece
        small bounded valid entries kind
      rw [straight_place profile layout pieceLength positive piece valid entries kind disk.files
        place] at crooked
      have lower := place.lower
      have upper := place.upper
      -- The first byte of the piece, or the first one behind the file it starts in.
      obtain ⟨skipped, low, high, reason⟩ : ∃ skipped,
          pieceStart pieceLength piece ≤ place.heads.flatten.length + skipped ∧
          place.heads.flatten.length + skipped <
            pieceStart pieceLength piece + pieceSize layout pieceLength piece ∧
          (skipped = pieceStart pieceLength piece - place.heads.flatten.length ∧
              pieceStart pieceLength piece - place.heads.flatten.length <
                pieceStart pieceLength piece ∨
            skipped = place.entry.length ∧
              pieceStart pieceLength piece - place.heads.flatten.length =
                pieceStart pieceLength piece ∧
              0 < pieceStart pieceLength piece ∧ place.entry.length <
                pieceStart pieceLength piece + pieceSize layout pieceLength piece) := by
        by_cases first : place.heads.flatten.length = 0
        · exact ⟨place.entry.length, by omega, by omega, Or.inr ⟨rfl, by omega⟩⟩
        · exact ⟨pieceStart pieceLength piece - place.heads.flatten.length, by omega, by omega,
            Or.inl ⟨rfl, by omega⟩⟩
      have held : place.heads.flatten.length + skipped < disk.files.flatten.length := by omega
      refine ⟨place.heads.flatten.length + skipped,
        disk.files.flatten[place.heads.flatten.length + skipped], low, ?_,
        List.getElem?_eq_getElem held, ?_⟩
      · rwa [kind] at high
      · intro data full
        rw [← kind] at full
        rw [← List.getElem?_eq_getElem held, wrote data, place.flatten, List.flatten_append,
          List.getElem?_append_right (Nat.le_add_right _ _),
          List.getElem?_append_right (Nat.le_add_right _ _), Nat.add_sub_cancel_left]
        refine write_files_crooked profile _ _ place.entry place.after place.file place.tails data
          place.tail_sizes (by omega) ?_ skipped (by rwa [full])
        rintro rfl
        simp only [List.length_nil] at full
        omega

end Calls

section Sequences

variable (profile : Profile) (layout : FileDetails) (pieceLength : Nat)
  (positive : 0 < pieceLength)
  (narrow : ∀ piece : UInt32, pieceStart pieceLength piece < layout.totalSize →
    (piece.toNat + 1) * pieceLength < 2 ^ 32)

theorem flat_image_snoc (calls : List Write) (call : Write) (image : Bytes) :
    flatImage pieceLength (calls ++ [call]) image =
      overwrite (flatImage pieceLength calls image) (pieceStart pieceLength call.piece)
        call.data := by
  rw [flatImage, List.map_append, List.map_singleton, overwrite_all_snoc]
  rfl

include positive in
theorem piece_start_inj (first second : UInt32)
    (same : pieceStart pieceLength first = pieceStart pieceLength second) : first = second :=
  UInt32.toNat.inj (Nat.eq_of_mul_eq_mul_right positive same)

theorem pieces_apart (first second : UInt32) (different : first ≠ second) :
    pieceStart pieceLength first + pieceSize layout pieceLength first ≤
        pieceStart pieceLength second ∨
      pieceStart pieceLength second + pieceSize layout pieceLength second ≤
        pieceStart pieceLength first := by
  have short : ∀ piece, pieceSize layout pieceLength piece ≤ pieceLength :=
    fun _ => Nat.min_le_left _ _
  have left := short first
  have right := short second
  rcases Nat.lt_trichotomy first.toNat second.toNat with less | same | more
  · have scaled := Nat.mul_le_mul_right pieceLength (Nat.succ_le_of_lt less)
    rw [Nat.succ_mul] at scaled
    exact Or.inl (Nat.le_trans (Nat.add_le_add_left left _) scaled)
  · exact (different (UInt32.toNat.inj same)).elim
  · have scaled := Nat.mul_le_mul_right pieceLength (Nat.succ_le_of_lt more)
    rw [Nat.succ_mul] at scaled
    exact Or.inr (Nat.le_trans (Nat.add_le_add_left right _) scaled)

include positive in
theorem slice_flat_image (calls : List Write) (image : Bytes)
    (size : image.length = layout.totalSize)
    (valid : ∀ call ∈ calls, pieceStart pieceLength call.piece < layout.totalSize)
    (full : ∀ call ∈ calls, call.data.length = pieceSize layout pieceLength call.piece)
    (piece : UInt32) :
    slice (flatImage pieceLength calls image) (pieceStart pieceLength piece)
        (pieceSize layout pieceLength piece) =
      (lastWritten calls piece).getD (slice image (pieceStart pieceLength piece)
        (pieceSize layout pieceLength piece)) := by
  have found := slice_overwrite_all image
    (calls.map fun call => (pieceStart pieceLength call.piece, call.data))
    (pieceStart pieceLength piece) (pieceSize layout pieceLength piece) ?_ ?_ ?_
  · rw [flatImage, found, ← List.map_reverse, List.find?_map, Option.map_map, lastWritten]
    congr 2
    apply congrArg (fun test => calls.reverse.find? test)
    funext call
    apply decide_eq_decide.mpr
    exact ⟨piece_start_inj pieceLength positive call.piece piece, fun same => same ▸ rfl⟩
  · rintro write member
    obtain ⟨call, there, rfl⟩ := List.mem_map.mp member
    obtain ⟨-, inside⟩ := piece_inside layout pieceLength positive call.piece (valid call there)
    dsimp only
    rwa [full call there, size]
  · rintro write member same
    obtain ⟨call, there, rfl⟩ := List.mem_map.mp member
    rw [← piece_start_inj pieceLength positive call.piece piece same]
    exact full call there
  · rintro write member different
    obtain ⟨call, there, rfl⟩ := List.mem_map.mp member
    dsimp only at different ⊢
    rw [full call there]
    apply pieces_apart layout pieceLength piece call.piece
    rintro rfl
    exact different rfl

theorem writes_total (start : DiskIo) (calls : List Write) :
    ∃ reached results, run (writes profile) start calls = some (reached, results) := by
  induction calls generalizing start with
  | nil => exact ⟨start, [], rfl⟩
  | cons call rest ih =>
      obtain ⟨reached, results, ran⟩ := ih (start.writePiece profile call.piece call.data).1
      exact ⟨reached, _, (run_cons_iff _ _ _ _ _ _).mpr ⟨_, _, results, rfl, ran, rfl⟩⟩

structure Written (start : DiskIo) (calls : List Write) (disk : DiskIo)
    (results : List (Except (Fault DiskError) Unit)) : Prop where
  sized : Sized layout pieceLength disk
  succeeded : ∀ result ∈ results, result = .ok ()
  image : disk.files.flatten = flatImage pieceLength calls start.files.flatten

include positive narrow in
theorem written_step (start disk next : DiskIo) (past : List Write) (call : Write)
    (log emitted : List (Except (Fault DiskError) Unit))
    (held : Written layout pieceLength start past disk log)
    (valid : pieceStart pieceLength call.piece < layout.totalSize)
    (full : call.data.length = pieceSize layout pieceLength call.piece)
    (straight : Straight layout pieceLength call.piece)
    (stepped : (writes profile).step disk call = some (next, emitted)) :
    Written layout pieceLength start (past ++ [call]) next (log ++ emitted) := by
  obtain ⟨files, wrote, kept, same⟩ := straight_write profile layout pieceLength positive narrow
    disk held.sized call.piece valid straight call.data full
  simp only [writes, wrote, Option.some.injEq, Prod.mk.injEq] at stepped
  obtain ⟨rfl, rfl⟩ := stepped
  refine ⟨⟨held.sized.fileDetails, held.sized.pieceLength, ?_, held.sized.totalSize⟩, ?_, ?_⟩
  · exact kept.trans held.sized.lengths
  · intro result member
    rcases List.mem_append.mp member with earlier | last
    · exact held.succeeded result earlier
    · exact List.mem_singleton.mp last
  · rw [flat_image_snoc, ← held.image]
    exact same

include positive narrow in
theorem straight_run (start reached : DiskIo) (calls : List Write)
    (results : List (Except (Fault DiskError) Unit))
    (sized : Sized layout pieceLength start)
    (valid : ∀ call ∈ calls, pieceStart pieceLength call.piece < layout.totalSize)
    (full : ∀ call ∈ calls, call.data.length = pieceSize layout pieceLength call.piece)
    (straight : ∀ call ∈ calls, Straight layout pieceLength call.piece)
    (ran : run (writes profile) start calls = some (reached, results)) :
    Written layout pieceLength start calls reached results := by
  refine run_history (writes profile) start calls (Written layout pieceLength start) ?_ ?_ calls
    (List.prefix_refl calls) reached results ran
  · exact ⟨sized, fun _ absurd => (List.not_mem_nil absurd).elim, rfl⟩
  · intro past call disk log next emitted began _ held stepped
    have member : call ∈ calls :=
      began.subset (List.mem_append_right past List.mem_cons_self)
    exact written_step profile layout pieceLength positive narrow start disk next past call log
      emitted held (valid call member) (full call member) (straight call member) stepped

include positive narrow in
theorem flat_of_written (start reached : DiskIo) (calls : List Write)
    (results : List (Except (Fault DiskError) Unit))
    (sized : Sized layout pieceLength start)
    (valid : ∀ call ∈ calls, pieceStart pieceLength call.piece < layout.totalSize)
    (full : ∀ call ∈ calls, call.data.length = pieceSize layout pieceLength call.piece)
    (written : Written layout pieceLength start calls reached results) :
    Flat profile layout pieceLength start calls reached results := by
  refine ⟨written.succeeded, written.sized.lengths, written.image, ?_⟩
  intro piece inside
  obtain ⟨small, bounded⟩ := piece_narrow layout pieceLength positive narrow piece inside
  rw [read_piece_slice profile layout pieceLength positive reached written.sized piece small
    bounded inside (narrow piece inside), written.image, slice_flat_image layout pieceLength
    positive calls _ (sized_flatten layout pieceLength start sized) valid full piece]

def blankDisk : DiskIo :=
  { basePath := ⟨false, []⟩
    fileDetails := layout
    pieceLength
    files := (fileLengths layout).map fun length => List.replicate length 0
    totalSize := layout.totalSize }

theorem blank_disk_sized : Sized layout pieceLength (blankDisk layout pieceLength) := by
  refine ⟨rfl, rfl, ?_, rfl⟩
  rw [blankDisk, List.map_map]
  exact List.map_id'' (fun length => List.length_replicate) _

def blankWrite (piece : UInt32) : Write :=
  { piece, data := List.replicate (pieceSize layout pieceLength piece) 0 }

theorem other_byte (byte : UInt8) : ∃ other : UInt8, other ≠ byte := by
  by_cases zero : byte = 0
  · exact ⟨1, by rw [zero]; decide⟩
  · exact ⟨0, Ne.symm zero⟩

include positive narrow in
/-- After straight writes, a write that is not straight can leave the image. -/
theorem crooked_not_flat (earlier later : List UInt32) (piece : UInt32)
    (valid : ∀ other ∈ earlier ++ piece :: later,
      pieceStart pieceLength other < layout.totalSize)
    (straight : ∀ other ∈ earlier, Straight layout pieceLength other)
    (crooked : ¬ Straight layout pieceLength piece) :
    ¬ AlwaysFlat profile layout pieceLength (earlier ++ piece :: later) := by
  intro always
  have here : piece ∈ earlier ++ piece :: later :=
    List.mem_append_right earlier List.mem_cons_self
  have blank : ∀ other, (blankWrite layout pieceLength other).data.length =
      pieceSize layout pieceLength other := fun other => List.length_replicate
  obtain ⟨middle, log, began⟩ := writes_total profile (blankDisk layout pieceLength)
    (earlier.map (blankWrite layout pieceLength))
  have written := straight_run profile layout pieceLength positive narrow _ middle _ log
    (blank_disk_sized layout pieceLength)
    (List.forall_mem_map.mpr fun other there => valid other (List.mem_append_left _ there))
    (List.forall_mem_map.mpr fun other _ => blank other)
    (List.forall_mem_map.mpr straight) began
  obtain ⟨position, byte, low, high, held, missed⟩ := crooked_write profile layout pieceLength
    positive narrow middle written.sized piece (valid piece here) crooked
  -- The write brings another byte for the position that it misses.
  obtain ⟨other, different⟩ := other_byte byte
  obtain ⟨data, full, filled⟩ : ∃ data : Bytes,
      data.length = pieceSize layout pieceLength piece ∧
        ∀ i, i < pieceSize layout pieceLength piece → data[i]? = some other :=
    ⟨List.replicate _ other, List.length_replicate,
      fun i inside => by rw [List.getElem?_replicate, if_pos inside]⟩
  have ran := (run_snoc_iff (writes profile) _ _ _ (Write.mk piece data) _).mpr
    ⟨middle, log, _, began, rfl, rfl⟩
  have flat := (always _ (earlier.map (blankWrite layout pieceLength) ++
      Write.mk piece data :: later.map (blankWrite layout pieceLength)) _ _ _
    (blank_disk_sized layout pieceLength) ?_ ?_ ?_ ran).image
  · have size := sized_flatten layout pieceLength middle written.sized
    have start := valid piece here
    have changed := congrArg (fun image : Bytes => image[position]?) flat
    rw [flat_image_snoc, ← written.image] at changed
    dsimp only at changed
    rw [missed data full, getElem_overwrite _ _ _ _ (by omega), if_neg (by omega),
      if_pos (by omega), filled _ (by omega), Option.some.injEq] at changed
    exact different changed.symm
  · rw [List.map_append, List.map_cons, List.map_map, List.map_map]
    congr 1
    · exact List.map_id'' (fun _ => rfl) earlier
    · exact congrArg _ (List.map_id'' (fun _ => rfl) later)
  · intro call member
    rcases List.mem_append.mp member with before | rest
    · obtain ⟨other, there, rfl⟩ := List.mem_map.mp before
      exact blank other
    · rcases List.mem_cons.mp rest with rfl | after
      · exact full
      · obtain ⟨other, there, rfl⟩ := List.mem_map.mp after
        exact blank other
  · exact (List.prefix_append_right_inj _).mpr ⟨_, rfl⟩

include positive narrow in
/-- The files follow the flat image for every sequence of writes of these pieces exactly
when each of the pieces is the first one or ends within the first file that is not empty. -/
theorem flat_image_iff (pieces : List UInt32)
    (valid : ∀ piece ∈ pieces, pieceStart pieceLength piece < layout.totalSize) :
    AlwaysFlat profile layout pieceLength pieces ↔
      ∀ piece ∈ pieces, Straight layout pieceLength piece := by
  constructor
  · intro always
    by_contra bent
    have found :
        (pieces.find? fun piece => !decide (Straight layout pieceLength piece)).isSome := by
      simpa using bent
    -- Up to the first piece that is not straight, the files do follow the image.
    obtain ⟨first, found⟩ := Option.isSome_iff_exists.mp found
    obtain ⟨crooked, earlier, later, rfl, straight⟩ := List.find?_eq_some_iff_append.mp found
    exact crooked_not_flat profile layout pieceLength positive narrow earlier later first valid
      (by simpa using straight) (by simpa using crooked) always
  · intro straight start calls past reached results sized named full began ran
    have member : ∀ call ∈ past, call ∈ calls := fun call there => began.subset there
    have listed : ∀ call ∈ past, call.piece ∈ pieces := by
      intro call there
      rw [← named]
      exact List.mem_map_of_mem (member call there)
    have inside : ∀ call ∈ past, pieceStart pieceLength call.piece < layout.totalSize :=
      fun call there => valid call.piece (listed call there)
    have whole : ∀ call ∈ past, call.data.length = pieceSize layout pieceLength call.piece :=
      fun call there => full call (member call there)
    exact flat_of_written profile layout pieceLength positive narrow start reached past results
      sized inside whole
      (straight_run profile layout pieceLength positive narrow start reached past results sized
        inside whole (fun call there => straight call.piece (listed call there)) ran)

end Sequences

def twoFiles : FileDetails :=
  .multiFile [{ length := 2, path := [fromStr "a"] }, { length := 2, path := [fromStr "b"] }]

theorem two_files_narrow (piece : UInt32) (inside : pieceStart 2 piece < twoFiles.totalSize) :
    (piece.toNat + 1) * 2 < 2 ^ 32 := by
  change piece.toNat * 2 < 4 at inside
  omega

theorem two_files_valid (piece : UInt32) (listed : piece = 0 ∨ piece = 1) :
    pieceStart 2 piece < twoFiles.totalSize := by
  rcases listed with rfl | rfl
  · decide
  · decide

theorem flat_image_two_files :
    AlwaysFlat .checked twoFiles 2 [0, 0] ∧ ¬ AlwaysFlat .checked twoFiles 2 [0, 1] := by
  constructor
  · apply (flat_image_iff .checked twoFiles 2 (by decide) two_files_narrow [0, 0]
      fun piece listed => two_files_valid piece (Or.inl (by simpa using listed))).mpr
    intro piece listed
    exact Or.inl (by simpa using listed)
  · intro always
    have straight := (flat_image_iff .checked twoFiles 2 (by decide) two_files_narrow [0, 1]
      fun piece listed => two_files_valid piece (by simpa using listed)).mp always 1 (by simp)
    revert straight
    decide

/-- The second piece is the second file. It is written behind the end of that file, which
grows, and reads back as zeros. -/
theorem second_file_not_flat :
    Sized twoFiles 2 (blankDisk twoFiles 2) ∧
      ∃ reached, run (writes .checked) (blankDisk twoFiles 2) [⟨1, [7, 8]⟩] =
          some (reached, [.ok ()]) ∧
        reached.files = [[0, 0], [0, 0, 7, 8]] ∧
        flatImage 2 [⟨1, [7, 8]⟩] (blankDisk twoFiles 2).files.flatten = [0, 0, 7, 8] ∧
        reached.readPiece .checked 1 = .ok [0, 0] ∧
        ¬ Flat .checked twoFiles 2 (blankDisk twoFiles 2) [⟨1, [7, 8]⟩] reached [.ok ()] := by
  refine ⟨blank_disk_sized twoFiles 2, _, rfl, by decide, by decide, by decide, ?_⟩
  intro flat
  have lengths := flat.lengths
  revert lengths
  decide

end MotteSeed.DiskImage
