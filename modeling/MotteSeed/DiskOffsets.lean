import MotteSeed.DiskImage

/-! The offset of a piece. Both calls multiply in 32 bits and widen the product
afterwards; compared here with the same calls on unbounded numbers. -/
namespace MotteSeed.DiskOffsets
open Toolkit Toolkit.Checked Toolkit.Tiling Toolkit.ByteImage PeerWire TorrentMeta Disk DiskFiles
  DiskImage

section Exact

variable (profile : Profile) (disk : DiskIo) (pieceIndex : UInt32)

/-- The writing loop started at the file that holds an unbounded offset. -/
def exactFiles (pieceOffset : Nat) (data : Bytes) (fileEntries : List FileEntry) :
    List Bytes × Except (Fault DiskError) Unit :=
  match findFile profile pieceOffset fileEntries 0 0 with
  | .error fault => (disk.files, .error fault)
  | .ok (fileIndex, currentOffset) =>
      if fileIndex ≥ fileEntries.length then (disk.files, .error (outOfBounds pieceIndex))
      else
        let written := writeFiles profile pieceOffset (fileEntries.drop fileIndex)
          (disk.files.drop fileIndex) (pieceOffset - currentOffset) data
        (disk.files.take fileIndex ++ written.1, written.2)

def exactWrite (data : Bytes) : DiskIo × Except (Fault DiskError) Unit :=
  let pieceOffset := pieceStart disk.pieceLength pieceIndex
  if pieceOffset ≥ disk.totalSize then (disk, .error (outOfBounds pieceIndex))
  else match disk.fileDetails with
    | .singleFile _ =>
        match disk.files with
        | [] => (disk, .error .bounds)
        | file :: files => ({ disk with files := writeAt file pieceOffset data :: files }, .ok ())
    | .multiFile files =>
        let written := exactFiles profile disk pieceIndex pieceOffset data files
        ({ disk with files := written.1 }, written.2)

def exactRead : Except (Fault DiskError) Bytes :=
  let pieceOffset := pieceStart disk.pieceLength pieceIndex
  if pieceOffset ≥ disk.totalSize then .error (outOfBounds pieceIndex)
  else .ok (slice disk.files.flatten pieceOffset
    (min disk.pieceLength (disk.totalSize - pieceOffset)))

/-- In every build both calls use the exact offset, and nothing overflows on the way. -/
def OffsetsExact : Prop :=
  ∀ profile, (∀ data, disk.writePiece profile pieceIndex data =
      exactWrite profile disk pieceIndex data) ∧
    disk.readPiece profile pieceIndex = exactRead disk pieceIndex

end Exact

section Products

variable (profile : Profile) (layout : FileDetails) (pieceLength : UInt32)
  (positive : 0 < pieceLength.toNat) (bounded : layout.totalSize < 2 ^ 64) (disk : DiskIo)
  (sized : Sized layout pieceLength.toNat disk) (piece : UInt32)

include bounded sized in
theorem write_exact (small : pieceStart pieceLength.toNat piece < 2 ^ 32) (data : Bytes) :
    disk.writePiece profile piece data = exactWrite profile disk piece data := by
  have product := start_product profile layout pieceLength.toNat disk sized piece small
  rw [← sized.pieceLength] at product
  simp only [DiskIo.writePiece, exactWrite, product]
  by_cases past : pieceStart disk.pieceLength piece ≥ disk.totalSize
  · rw [if_pos past, if_pos past]
  rw [if_neg past, if_neg past]
  cases kind : disk.fileDetails with
  | singleFile length => rfl
  | multiFile entries =>
      have same : layout = .multiFile entries := sized.fileDetails.symm.trans kind
      have lengths := sized.lengths
      have valid := Nat.lt_of_not_le past
      rw [sized.totalSize] at valid
      rw [same] at lengths bounded valid
      obtain ⟨place⟩ := located profile entries disk.files (pieceStart disk.pieceLength piece)
        lengths valid bounded
      simp only [writeMultiFilePiece, exactFiles, product, place.found,
        sub_exact profile 64 _ _ place.lower]

include positive bounded sized in
theorem read_exact_offset (small : pieceStart pieceLength.toNat piece < 2 ^ 32)
    (stop : pieceStart pieceLength.toNat piece < layout.totalSize →
      (piece.toNat + 1) * pieceLength.toNat < 2 ^ 32) :
    disk.readPiece profile piece = exactRead disk piece := by
  simp only [exactRead, sized.pieceLength, sized.totalSize]
  by_cases valid : pieceStart pieceLength.toNat piece < layout.totalSize
  · rw [if_neg (Nat.not_le_of_lt valid)]
    exact read_piece_slice profile layout pieceLength.toNat positive disk sized piece small bounded
      valid (stop valid)
  · have product := start_product profile layout pieceLength.toNat disk sized piece small
    rw [sized.pieceLength] at product
    simp only [DiskIo.readPiece, sized.pieceLength, sized.totalSize, product, bind, Except.bind,
      if_pos (Nat.le_of_not_lt valid)]
    rfl

theorem mul_overflow (a b : Nat) (wide : 2 ^ 32 ≤ a * b) :
    (Profile.checked.mul 32 a b : Except (Fault DiskError) Nat) = .error .overflow := by
  simp only [Profile.mul, Profile.narrow, if_neg (Nat.not_lt.mpr wide)]

theorem add_checked (a b : Nat) :
    (Profile.checked.add 32 a b : Except (Fault DiskError) Nat) = .ok (a + b) ∨
      (Profile.checked.add 32 a b : Except (Fault DiskError) Nat) = .error .overflow := by
  by_cases fits : a + b < 2 ^ 32
  · exact Or.inl (add_exact .checked 32 a b fits)
  · simp only [Profile.add, Profile.narrow, if_neg fits]
    exact Or.inr trivial

include sized in
theorem read_overflows (wide : 2 ^ 32 ≤ pieceStart pieceLength.toNat piece ∨
      pieceStart pieceLength.toNat piece < layout.totalSize ∧
        2 ^ 32 ≤ (piece.toNat + 1) * pieceLength.toNat) :
    disk.readPiece .checked piece = .error .overflow := by
  by_cases first : 2 ^ 32 ≤ pieceStart pieceLength.toNat piece
  · simp only [DiskIo.readPiece, sized.pieceLength, bind, Except.bind,
      mul_overflow piece.toNat pieceLength.toNat first]
  · obtain ⟨valid, second⟩ := wide.resolve_left first
    have product := start_product .checked layout pieceLength.toNat disk sized piece
      (Nat.lt_of_not_le first)
    rw [sized.pieceLength] at product
    simp only [DiskIo.readPiece, sized.pieceLength, sized.totalSize, product, bind, Except.bind,
      if_neg (Nat.not_le_of_lt valid)]
    rcases add_checked piece.toNat 1 with next | overflow
    · simp only [next, mul_overflow (piece.toNat + 1) pieceLength.toNat second]
    · simp only [overflow]

theorem exact_read_fine : exactRead disk piece ≠ .error .overflow := by
  unfold exactRead
  dsimp only
  split
  · intro same
    cases same
  · intro same
    cases same

end Products

end MotteSeed.DiskOffsets
