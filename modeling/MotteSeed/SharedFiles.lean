import Mathlib.Logic.Function.Basic
import MotteSeed.DiskImage

/-! `disk_io.rs` where paths may lead to one file. The loop of `DiskIO::new` opens a file for
every entry and keeps them all; entries that name one path, or two paths to one file, read
and write the same bytes. Where every entry has a file of its own, the disk is the one that
holds the bytes of each entry. -/
namespace MotteSeed.SharedFiles
open Toolkit Toolkit.Checked Toolkit.LexicalPath PeerWire TorrentMeta Disk DiskFiles DiskImage

/-- What a path leads to, however it is written and through whatever links. -/
abbrev Inode := Nat

abbrev Store := Inode → Bytes

structure SharedHost where
  mkdir : UnixPath → Mkdir
  opens : UnixPath → Bool
  resizes : UnixPath → Nat → Bool
  inode : UnixPath → Inode
  store : Store

def SharedHost.now (host : SharedHost) (store : Store) : Host where
  mkdir := host.mkdir
  opens := host.opens
  resizes := host.resizes
  content path := store (host.inode path)

structure SharedDisk where
  basePath : UnixPath
  fileDetails : FileDetails
  pieceLength : Nat
  inodes : List Inode
  store : Store
  totalSize : Nat

def SharedDisk.view (disk : SharedDisk) : DiskIo where
  basePath := disk.basePath
  fileDetails := disk.fileDetails
  pieceLength := disk.pieceLength
  files := disk.inodes.map disk.store
  totalSize := disk.totalSize

section Layout

variable (profile : Profile) (host : SharedHost)

def entryInode (base : UnixPath) (entry : FileEntry) : Inode :=
  host.inode ((entryPath base entry.path).getD base)

def openEntries (base : UnixPath) : List FileEntry → List Inode → Store → Nat →
    List FsOp × Except (Fault DiskError) ((List Inode × Store) × Nat)
  | [], inodes, store, totalSize => ([], .ok ((inodes, store), totalSize))
  | entry :: rest, inodes, store, totalSize =>
      match openEntry (host.now store) base entry with
      | (ops, .error fault) => (ops, .error fault)
      | (ops, .ok file) =>
          match profile.add 64 totalSize entry.length with
          | .error fault => (ops, .error fault)
          | .ok total =>
              -- `set_len` has already cut the file for an earlier entry, if they share it.
              let inode := entryInode host base entry
              let later := openEntries base rest (inodes ++ [inode])
                (Function.update store inode file) total
              (ops ++ later.1, later.2)

structure SharedOpening where
  baseOps : List FsOp
  fileOps : List FsOp
  result : Except (Fault DiskError) SharedDisk

def SharedDisk.new (basePath : UnixPath) (fileDetails : FileDetails) (pieceLength : Nat) :
    SharedOpening :=
  let made := createDirAll (host.now host.store) (fun _ => false) basePath
  if made.2 then
    let opened := match fileDetails with
      | .singleFile length =>
          let path := basePath.push (fromStr "data")
          let single := openSized (host.now host.store) (standing basePath) path length
          (single.1, single.2.map fun file =>
            (([host.inode path], Function.update host.store (host.inode path) file), length))
      | .multiFile files => openEntries profile host basePath files [] host.store 0
    { baseOps := made.1
      fileOps := opened.1
      result := opened.2.map fun found =>
        { basePath, fileDetails, pieceLength
          inodes := found.1.1, store := found.1.2, totalSize := found.2 } }
  else { baseOps := made.1, fileOps := [], result := .error (.error .ioError) }

end Layout

section Pieces

variable (profile : Profile)

def writeFiles (pieceOffset : Nat) : List FileEntry → List Inode → Store → Nat → Bytes →
    Store × Except (Fault DiskError) Unit
  | [], _, store, _, _ => (store, .ok ())
  | entry :: entries, inodes, store, fileOffset, data =>
      if data = [] then (store, .ok ())
      else match inodes with
        | [] => (store, .error .bounds)
        | inode :: inodes =>
            match profile.sub 64 entry.length fileOffset with
            | .error fault => (store, .error fault)
            | .ok room =>
                let lengthToWrite := min data.length room
                let written := writeAt (store inode) pieceOffset (data.take lengthToWrite)
                writeFiles pieceOffset entries inodes (Function.update store inode written) 0
                  (data.drop lengthToWrite)

def writeMultiFilePiece (disk : SharedDisk) (pieceIndex : UInt32) (data : Bytes)
    (fileEntries : List FileEntry) : Store × Except (Fault DiskError) Unit :=
  match profile.mul 32 pieceIndex.toNat disk.pieceLength with
  | .error fault => (disk.store, .error fault)
  | .ok pieceOffset =>
      match findFile profile pieceOffset fileEntries 0 0 with
      | .error fault => (disk.store, .error fault)
      | .ok (fileIndex, currentOffset) =>
          if fileIndex ≥ fileEntries.length then (disk.store, .error (outOfBounds pieceIndex))
          else match profile.sub 64 pieceOffset currentOffset with
            | .error fault => (disk.store, .error fault)
            | .ok fileOffset =>
                writeFiles profile pieceOffset (fileEntries.drop fileIndex)
                  (disk.inodes.drop fileIndex) disk.store fileOffset data

def SharedDisk.writePiece (disk : SharedDisk) (pieceIndex : UInt32) (data : Bytes) :
    SharedDisk × Except (Fault DiskError) Unit :=
  match profile.mul 32 pieceIndex.toNat disk.pieceLength with
  | .error fault => (disk, .error fault)
  | .ok pieceOffset =>
      if pieceOffset ≥ disk.totalSize then (disk, .error (outOfBounds pieceIndex))
      else match disk.fileDetails with
        | .singleFile _ =>
            match disk.inodes with
            | [] => (disk, .error .bounds)
            | inode :: _ =>
                let written := writeAt (disk.store inode) pieceOffset data
                ({ disk with store := Function.update disk.store inode written }, .ok ())
        | .multiFile files =>
            let written := writeMultiFilePiece profile disk pieceIndex data files
            ({ disk with store := written.1 }, written.2)

/-- Reading changes no file, so it is the reading of what the entries see. -/
def SharedDisk.readPiece (disk : SharedDisk) (pieceIndex : UInt32) :
    Except (Fault DiskError) Bytes :=
  disk.view.readPiece profile pieceIndex

end Pieces

theorem map_update_absent (inodes : List Inode) (store : Store) (inode : Inode) (file : Bytes)
    (absent : inode ∉ inodes) :
    inodes.map (Function.update store inode file) = inodes.map store :=
  List.map_congr_left fun _ member =>
    Function.update_of_ne (ne_of_mem_of_not_mem member absent) _ _

section Opening

variable (profile : Profile) (host : SharedHost) (store other : Store)

theorem create_missing_now (paths : List UnixPath) :
    createMissing (host.now store) paths = createMissing (host.now other) paths := by
  induction paths with
  | nil => rfl
  | cons path rest ih =>
      rw [createMissing, createMissing, ih]
      rfl

theorem create_dir_all_now (known : UnixPath → Bool) (path : UnixPath) :
    createDirAll (host.now store) known path = createDirAll (host.now other) known path := by
  rw [createDirAll, createDirAll, create_missing_now host store other]

theorem open_sized_now (known : UnixPath → Bool) (path : UnixPath) (length : Nat)
    (same : store (host.inode path) = other (host.inode path)) :
    openSized (host.now store) known path length =
      openSized (host.now other) known path length := by
  unfold openSized SharedHost.now
  dsimp only
  rw [same]

theorem open_entry_now (base : UnixPath) (entry : FileEntry)
    (same : store (entryInode host base entry) = other (entryInode host base entry)) :
    openEntry (host.now store) base entry = openEntry (host.now other) base entry := by
  unfold openEntry
  cases located : entryPath base entry.path with
  | none => rfl
  | some filePath =>
      rw [entryInode, located, Option.getD_some] at same
      have parents : createParents (host.now store) base filePath =
          createParents (host.now other) base filePath := by
        unfold createParents
        split
        · exact create_dir_all_now host store other _ _
        · rfl
      dsimp only
      rw [parents, open_sized_now host store other _ filePath entry.length same]

theorem open_entries_inodes (base : UnixPath) (entries : List FileEntry) (inodes : List Inode)
    (store : Store) (totalSize : Nat) (ops : List FsOp) (found : (List Inode × Store) × Nat)
    (opened : openEntries profile host base entries inodes store totalSize = (ops, .ok found)) :
    found.1.1 = inodes ++ entries.map (entryInode host base) ∧
      ∀ inode, inode ∉ entries.map (entryInode host base) → found.1.2 inode = store inode := by
  induction entries generalizing inodes store totalSize ops with
  | nil =>
      cases opened
      exact ⟨(List.append_nil inodes).symm, fun _ _ => rfl⟩
  | cons entry rest ih =>
      unfold openEntries at opened
      split at opened
      · cases opened
      · dsimp only at opened
        split at opened
        · cases opened
        · obtain ⟨-, tail⟩ := Prod.mk.inj opened
          obtain ⟨names, kept⟩ := ih _ _ _ _ (Prod.ext rfl tail)
          refine ⟨by rw [names, List.map_cons, List.append_assoc]; rfl, fun inode absent => ?_⟩
          rw [List.map_cons, List.mem_cons, not_or] at absent
          rw [kept inode absent.2, Function.update_of_ne absent.1]

/-- Entries with files of their own find what each of them would find alone. -/
theorem open_entries_view (base : UnixPath) (entries : List FileEntry) (inodes : List Inode)
    (store : Store) (totalSize : Nat) (ops : List FsOp) (found : (List Inode × Store) × Nat)
    (opened : openEntries profile host base entries inodes store totalSize = (ops, .ok found))
    (distinct : found.1.1.Nodup)
    (untouched : ∀ inode ∉ inodes, store inode = other inode) :
    Disk.openEntries profile (host.now other) base entries (inodes.map store) totalSize =
      (ops, .ok (found.1.1.map found.1.2, found.2)) := by
  induction entries generalizing inodes store totalSize ops with
  | nil =>
      cases opened
      rfl
  | cons entry rest ih =>
      obtain ⟨names, -⟩ := open_entries_inodes profile host base _ inodes store totalSize ops found
        opened
      rw [names] at distinct
      have fresh : entryInode host base entry ∉ inodes := fun member =>
        (List.nodup_append.mp distinct).2.2 _ member _ List.mem_cons_self rfl
      unfold openEntries at opened
      rw [open_entry_now host store other base entry (untouched _ fresh)] at opened
      unfold Disk.openEntries
      cases here : openEntry (host.now other) base entry with
      | mk first result =>
          cases result with
          | error fault => simp [here] at opened
          | ok file =>
              cases sum : (profile.add 64 totalSize entry.length :
                  Except (Fault DiskError) Nat) with
              | error fault => simp [here, sum] at opened
              | ok total =>
                  simp only [here, sum] at opened ⊢
                  obtain ⟨head, tail⟩ := Prod.mk.inj opened
                  have seen : (inodes ++ [entryInode host base entry]).map
                      (Function.update store (entryInode host base entry) file) =
                        inodes.map store ++ [file] := by
                    rw [List.map_append, List.map_singleton, Function.update_self,
                      map_update_absent inodes store _ file fresh]
                  have later := ih _ _ total _ (Prod.ext rfl tail) fun inode absent => by
                    rw [List.mem_append, List.mem_singleton, not_or] at absent
                    rw [Function.update_of_ne absent.2, untouched inode absent.1]
                  rw [seen] at later
                  rw [later, ← head]

/-- A disk that `DiskIO::new` has made of distinct files is the one of its entries. -/
theorem new_view (basePath : UnixPath) (layout : FileDetails) (pieceLength : Nat)
    (disk : SharedDisk)
    (made : (SharedDisk.new profile host basePath layout pieceLength).result = .ok disk)
    (distinct : disk.inodes.Nodup) :
    (DiskIo.new profile (host.now host.store) basePath layout pieceLength).result =
      .ok disk.view := by
  unfold SharedDisk.new at made
  unfold DiskIo.new
  dsimp only at made ⊢
  split at made
  · rename_i there
    rw [if_pos there]
    cases layout with
    | singleFile length =>
        dsimp only at made ⊢
        cases opened : openSized (host.now host.store) (standing basePath)
            (basePath.push (fromStr "data")) length with
        | mk ops result =>
            cases result with
            | error fault => simp [opened, Except.map] at made
            | ok file =>
                simp only [opened, Except.map, Except.ok.injEq] at made ⊢
                subst made
                simp [SharedDisk.view]
    | multiFile files =>
        dsimp only at made ⊢
        cases opened : openEntries profile host basePath files [] host.store 0 with
        | mk ops result =>
            cases result with
            | error fault => simp [opened, Except.map] at made
            | ok found =>
                simp only [opened, Except.map, Except.ok.injEq] at made
                subst made
                have view := open_entries_view profile host host.store basePath files [] host.store
                  0 ops found opened distinct fun _ _ => rfl
                rw [List.map_nil] at view
                rw [view]
                rfl
  · cases made

end Opening

section Writing

variable (profile : Profile)

theorem write_files_untouched (pieceOffset : Nat) (entries : List FileEntry)
    (inodes : List Inode) (store : Store) (fileOffset : Nat) (data : Bytes) (inode : Inode)
    (absent : inode ∉ inodes) :
    (writeFiles profile pieceOffset entries inodes store fileOffset data).1 inode =
      store inode := by
  induction entries generalizing inodes store fileOffset data with
  | nil => rfl
  | cons entry rest ih =>
      unfold writeFiles
      split
      · rfl
      · cases inodes with
        | nil => rfl
        | cons first others =>
            rw [List.mem_cons, not_or] at absent
            dsimp only
            split
            · rfl
            · rw [ih others _ 0 _ absent.2, Function.update_of_ne absent.1]

theorem write_files_view (pieceOffset : Nat) (entries : List FileEntry) (inodes : List Inode)
    (store : Store) (fileOffset : Nat) (data : Bytes) (distinct : inodes.Nodup) :
    let written := writeFiles profile pieceOffset entries inodes store fileOffset data
    Disk.writeFiles profile pieceOffset entries (inodes.map store) fileOffset data =
      (inodes.map written.1, written.2) := by
  induction entries generalizing inodes store fileOffset data with
  | nil => rfl
  | cons entry rest ih =>
      dsimp only
      unfold writeFiles Disk.writeFiles
      split
      · rfl
      · cases inodes with
        | nil => rfl
        | cons inode others =>
            obtain ⟨absent, later⟩ := List.nodup_cons.mp distinct
            dsimp only [List.map_cons]
            cases (profile.sub 64 entry.length fileOffset : Except (Fault DiskError) Nat) with
            | error fault => rfl
            | ok room =>
                have tail := ih others (Function.update store inode
                  (writeAt (store inode) pieceOffset (data.take (min data.length room)))) 0
                  (data.drop (min data.length room)) later
                rw [map_update_absent others store inode _ absent] at tail
                dsimp only at tail
                simp only [List.map_cons, tail, Function.update_self,
                  write_files_untouched profile pieceOffset rest others _ 0 _ inode absent]

variable (disk : SharedDisk) (distinct : disk.inodes.Nodup) (pieceIndex : UInt32) (data : Bytes)

theorem write_piece_inodes :
    (disk.writePiece profile pieceIndex data).1.inodes = disk.inodes := by
  unfold SharedDisk.writePiece
  split
  · rfl
  · split
    · rfl
    · split
      · split <;> rfl
      · rfl

include distinct in
theorem write_multi_file_piece_view (entries : List FileEntry) :
    let written := writeMultiFilePiece profile disk pieceIndex data entries
    Disk.writeMultiFilePiece profile disk.view pieceIndex data entries =
      (disk.inodes.map written.1, written.2) := by
  unfold writeMultiFilePiece Disk.writeMultiFilePiece SharedDisk.view
  dsimp only
  cases (profile.mul 32 pieceIndex.toNat disk.pieceLength : Except (Fault DiskError) Nat) with
  | error fault => rfl
  | ok pieceOffset =>
      dsimp only
      cases findFile profile pieceOffset entries 0 0 with
      | error fault => rfl
      | ok found =>
          obtain ⟨fileIndex, currentOffset⟩ := found
          dsimp only
          by_cases past : fileIndex ≥ entries.length
          · rw [if_pos past, if_pos past]
          · rw [if_neg past, if_neg past]
            cases (profile.sub 64 pieceOffset currentOffset : Except (Fault DiskError) Nat) with
            | error fault => rfl
            | ok fileOffset =>
                have cut := List.take_append_drop fileIndex disk.inodes
                rw [← cut] at distinct
                obtain ⟨-, tails, apart⟩ := List.nodup_append.mp distinct
                have tail := write_files_view profile pieceOffset (entries.drop fileIndex)
                  (disk.inodes.drop fileIndex) disk.store fileOffset data tails
                have front := List.map_congr_left fun inode member =>
                  write_files_untouched profile pieceOffset (entries.drop fileIndex)
                    (disk.inodes.drop fileIndex) disk.store fileOffset data inode
                    fun other => apart inode member inode other rfl
                dsimp only at tail ⊢
                rw [← List.map_drop, tail, ← List.map_take, ← front, ← List.map_append, cut]

include distinct in
theorem write_piece_view :
    let written := disk.writePiece profile pieceIndex data
    disk.view.writePiece profile pieceIndex data = (written.1.view, written.2) := by
  have multi := write_multi_file_piece_view profile disk distinct pieceIndex data
  dsimp only at multi ⊢
  unfold SharedDisk.writePiece DiskIo.writePiece
  have length : disk.view.pieceLength = disk.pieceLength := rfl
  have total : disk.view.totalSize = disk.totalSize := rfl
  have layout : disk.view.fileDetails = disk.fileDetails := rfl
  rw [length, total, layout]
  cases (profile.mul 32 pieceIndex.toNat disk.pieceLength : Except (Fault DiskError) Nat) with
  | error fault => rfl
  | ok pieceOffset =>
      dsimp only
      by_cases past : pieceOffset ≥ disk.totalSize
      · rw [if_pos past, if_pos past]
      · rw [if_neg past, if_neg past]
        cases disk.fileDetails with
        | singleFile declared =>
            cases names : disk.inodes with
            | nil => simp [SharedDisk.view, names]
            | cons inode others =>
                rw [names] at distinct
                have elsewhere := map_update_absent others disk.store inode
                  (writeAt (disk.store inode) pieceOffset data) (List.nodup_cons.mp distinct).1
                simp [SharedDisk.view, names, elsewhere]
        | multiFile entries =>
            dsimp only
            rw [multi entries]
            rfl

end Writing

/-- The length that the last entry of a file has given it. -/
def heldLength (declared : List (Inode × Nat)) (inode : Inode) : Nat :=
  (declared.reverse.lookup inode).getD 0

/-- The disk of a layout, whatever its files hold and whichever entries share them. -/
structure Settled (layout : FileDetails) (pieceLength : Nat) (disk : SharedDisk) : Prop where
  fileDetails : disk.fileDetails = layout
  pieceLength : disk.pieceLength = pieceLength
  inodes : disk.inodes.length = (fileLengths layout).length
  lengths : ∀ inode ∈ disk.inodes, (disk.store inode).length =
    heldLength (disk.inodes.zip (fileLengths layout)) inode
  totalSize : disk.totalSize = layout.totalSize

section Settled

theorem held_length_snoc (declared : List (Inode × Nat)) (inode other : Inode) (length : Nat) :
    heldLength (declared ++ [(inode, length)]) other =
      if other = inode then length else heldLength declared other := by
  rw [heldLength, heldLength, List.reverse_append, List.reverse_singleton, List.singleton_append,
    List.lookup_cons]
  by_cases same : other = inode
  · rw [if_pos same, beq_iff_eq.mpr same]
    rfl
  · rw [if_neg same, beq_false_of_ne same]

theorem open_entries_settled (profile : Profile) (host : SharedHost) (base : UnixPath)
    (entries : List FileEntry) (inodes : List Inode) (lengths : List Nat) (store : Store)
    (totalSize : Nat) (ops : List FsOp) (found : (List Inode × Store) × Nat)
    (fits : totalSize + (entries.map FileEntry.length).sum < 2 ^ 64)
    (count : inodes.length = lengths.length)
    (held : ∀ inode ∈ inodes, (store inode).length = heldLength (inodes.zip lengths) inode)
    (opened : openEntries profile host base entries inodes store totalSize = (ops, .ok found)) :
    found.1.1.length = (lengths ++ entries.map FileEntry.length).length ∧
      (∀ inode ∈ found.1.1, (found.1.2 inode).length =
        heldLength (found.1.1.zip (lengths ++ entries.map FileEntry.length)) inode) ∧
      found.2 = totalSize + (entries.map FileEntry.length).sum := by
  induction entries generalizing inodes lengths store totalSize ops with
  | nil =>
      cases opened
      rw [List.map_nil, List.append_nil]
      exact ⟨count, held, rfl⟩
  | cons entry rest ih =>
      rw [List.map_cons, List.sum_cons] at fits
      unfold openEntries at opened
      split at opened
      · cases opened
      · rename_i first file here
        have size := open_entry_length _ base entry first file here
        rw [add_exact profile 64 totalSize entry.length (by omega)] at opened
        obtain ⟨-, tail⟩ := Prod.mk.inj opened
        have now : ∀ inode ∈ inodes ++ [entryInode host base entry],
            (Function.update store (entryInode host base entry) file inode).length =
              heldLength ((inodes ++ [entryInode host base entry]).zip
                (lengths ++ [entry.length])) inode := by
          intro inode member
          rw [List.zip_append count, List.zip_cons_cons, List.zip_nil_left, held_length_snoc]
          by_cases same : inode = entryInode host base entry
          · rw [if_pos same, same, Function.update_self, size]
          · rw [if_neg same, Function.update_of_ne same]
            rcases List.mem_append.mp member with earlier | last
            · exact held inode earlier
            · exact absurd (List.mem_singleton.mp last) same
        obtain ⟨counted, known, total⟩ := ih _ _ _ _ _ (by omega) (by simp [count]) now
          (Prod.ext rfl tail)
        rw [List.append_assoc, List.singleton_append] at counted known
        exact ⟨counted, known, by rw [total, List.map_cons, List.sum_cons, Nat.add_assoc]⟩

theorem new_settled (profile : Profile) (host : SharedHost) (basePath : UnixPath)
    (layout : FileDetails) (pieceLength : Nat) (disk : SharedDisk)
    (fits : layout.totalSize < 2 ^ 64)
    (made : (SharedDisk.new profile host basePath layout pieceLength).result = .ok disk) :
    Settled layout pieceLength disk := by
  unfold SharedDisk.new at made
  dsimp only at made
  split at made
  · cases layout with
    | singleFile length =>
        dsimp only at made
        cases opened : openSized (host.now host.store) (standing basePath)
            (basePath.push (fromStr "data")) length with
        | mk ops result =>
            cases result with
            | error fault => simp [opened, Except.map] at made
            | ok file =>
                simp only [opened, Except.map, Except.ok.injEq] at made
                subst made
                have size := open_sized_length _ _ _ length ops file opened
                refine ⟨rfl, rfl, rfl, ?_, rfl⟩
                intro inode member
                obtain rfl := List.mem_singleton.mp member
                simp [fileLengths, heldLength, size]
    | multiFile files =>
        dsimp only at made
        cases opened : openEntries profile host basePath files [] host.store 0 with
        | mk ops result =>
            cases result with
            | error fault => simp [opened, Except.map] at made
            | ok found =>
                simp only [opened, Except.map, Except.ok.injEq] at made
                subst made
                rw [FileDetails.totalSize] at fits
                obtain ⟨count, lengths, total⟩ := open_entries_settled profile host basePath files
                  [] [] host.store 0 ops found (by omega) rfl (by simp) opened
                exact ⟨rfl, rfl, count, lengths, by simpa [FileDetails.totalSize] using total⟩
  · cases made

end Settled

end MotteSeed.SharedFiles
