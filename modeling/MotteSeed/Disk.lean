import MotteSeed.TorrentMeta
import MotteSeed.Toolkit.LexicalPath

/-! `disk_io.rs`: laying out the files of a torrent and reading and writing pieces.
The host answers the calls that create directories and open or resize files; what an
open file holds is a list of bytes. Once a file is open its seeks, reads and writes
succeed, except that a read past the end fails. Each entry has bytes of its own here;
entries that lead to one file are in `SharedFiles`. -/
namespace MotteSeed.Disk
open Toolkit Toolkit.Checked Toolkit.LexicalPath PeerWire TorrentMeta

inductive DiskError where
  | ioError
  | pathError (reason : String)
  | invalidPiece (reason : String)
  deriving DecidableEq

structure DiskIo where
  basePath : UnixPath
  fileDetails : FileDetails
  pieceLength : Nat
  files : List Bytes
  totalSize : Nat

section Layout

inductive Mkdir where
  | created
  | present
  | failed

/-- How the file system answers, and what a file holds when it is opened. -/
structure Host where
  mkdir : UnixPath → Mkdir
  opens : UnixPath → Bool
  resizes : UnixPath → Nat → Bool
  content : UnixPath → Bytes

inductive FsOp where
  | createDir (path : UnixPath)
  | openFile (path : UnixPath)
  | setLen (path : UnixPath) (length : Nat)
  deriving DecidableEq

/-- No system call takes a path with a zero byte. -/
def usable (path : UnixPath) : Bool := path.segments.all fun segment => !segment.contains 0

/-- The path is the base directory or one of its ancestors, as written. Once
`create_dir_all` has returned for the base they are there as directories. -/
def standing (base path : UnixPath) : Bool :=
  path.absolute = base.absolute ∧ path.components.isPrefixOf base.components

/-- The directories that `create_dir_all` may have to make, outermost first. Two dots
never make one: they lead to the parent of a directory that is there. -/
def ancestors (path : UnixPath) : List UnixPath :=
  (path.components.inits.filter fun segments => segments.getLast?.any isName).map
    fun segments => { path with segments := segments }

/-- `fs::create_dir_all` over the directories not known to be there. -/
def createMissing (host : Host) : List UnixPath → List FsOp × Bool
  | [] => ([], true)
  | path :: rest =>
      match host.mkdir path with
      | .created =>
          let later := createMissing host rest
          (.createDir path :: later.1, later.2)
      | .present => createMissing host rest
      | .failed => ([], false)

def createDirAll (host : Host) (known : UnixPath → Bool) (path : UnixPath) : List FsOp × Bool :=
  if usable path then
    createMissing host ((ancestors path).filter fun ancestor => !known ancestor)
  else ([], false)

/-- `File::set_len` cuts the content or extends it with zeros. -/
def setLen (content : Bytes) (length : Nat) : Bytes :=
  content.take length ++ List.replicate (length - content.length) 0

/-- A path can only be opened for writing if it ends in the name of something that is
not a directory. -/
def openable (known : UnixPath → Bool) (path : UnixPath) : Bool :=
  usable path ∧ path.segments.getLast?.any isName ∧ !known path

def openSized (host : Host) (known : UnixPath → Bool) (path : UnixPath) (length : Nat) :
    List FsOp × Except (Fault DiskError) Bytes :=
  if openable known path ∧ host.opens path then
    if host.resizes path length then
      ([.openFile path, .setLen path length], .ok (setLen (host.content path) length))
    else ([.openFile path], .error (.error .ioError))
  else ([], .error (.error .ioError))

def isUtf8 (component : Bytes) : Bool := ByteArray.validateUTF8 ⟨component.toArray⟩

def entryPath (path : UnixPath) : List Bytes → Option UnixPath
  | [] => some path
  | component :: rest => if isUtf8 component then entryPath (path.push component) rest else none

def createParents (host : Host) (base filePath : UnixPath) : List FsOp × Bool :=
  match filePath.parent with
  | some parent => createDirAll host (standing base) parent
  | none => ([], true)

def openEntry (host : Host) (base : UnixPath) (entry : FileEntry) :
    List FsOp × Except (Fault DiskError) Bytes :=
  match entryPath base entry.path with
  | none => ([], .error (.error (.pathError "Invalid UTF-8 in path")))
  | some filePath =>
      let parents := createParents host base filePath
      if parents.2 then
        let opened := openSized host (standing base) filePath entry.length
        (parents.1 ++ opened.1, opened.2)
      else (parents.1, .error (.error .ioError))

def openEntries (profile : Profile) (host : Host) (base : UnixPath) :
    List FileEntry → List Bytes → Nat → List FsOp × Except (Fault DiskError) (List Bytes × Nat)
  | [], files, totalSize => ([], .ok (files, totalSize))
  | entry :: rest, files, totalSize =>
      match openEntry host base entry with
      | (ops, .error fault) => (ops, .error fault)
      | (ops, .ok file) =>
          -- The file is there and has its length before the total is known to fit.
          match profile.add 64 totalSize entry.length with
          | .error fault => (ops, .error fault)
          | .ok total =>
              let later := openEntries profile host base rest (files ++ [file]) total
              (ops ++ later.1, later.2)

structure Opening where
  baseOps : List FsOp
  fileOps : List FsOp
  result : Except (Fault DiskError) DiskIo

def DiskIo.new (profile : Profile) (host : Host) (basePath : UnixPath) (fileDetails : FileDetails)
    (pieceLength : Nat) : Opening :=
  let made := createDirAll host (fun _ => false) basePath
  if made.2 then
    let opened := match fileDetails with
      | .singleFile length =>
          let single := openSized host (standing basePath) (basePath.push (fromStr "data")) length
          (single.1, single.2.map fun file => ([file], length))
      | .multiFile files => openEntries profile host basePath files [] 0
    { baseOps := made.1
      fileOps := opened.1
      result := opened.2.map fun found =>
        { basePath, fileDetails, pieceLength, files := found.1, totalSize := found.2 } }
  else { baseOps := made.1, fileOps := [], result := .error (.error .ioError) }

end Layout

section Pieces

variable (profile : Profile)

/-- `seek` and `write_all`: an empty write changes nothing, a write behind the end
fills the gap with zeros. -/
def writeAt (file : Bytes) (offset : Nat) (data : Bytes) : Bytes :=
  if data = [] then file
  else ByteImage.overwrite (file ++ List.replicate (offset - file.length) 0) offset data

def readAt (file : Bytes) (offset length : Nat) : Except (Fault DiskError) Bytes :=
  if offset + length ≤ file.length ∨ length = 0 then .ok (ByteImage.slice file offset length)
  else .error (.error .ioError)

def outOfBounds (pieceIndex : UInt32) : Fault DiskError :=
  .error (.invalidPiece s!"Piece index out of bounds: {pieceIndex}")

def findFile (pieceOffset : Nat) : List FileEntry → Nat → Nat → Except (Fault DiskError) (Nat × Nat)
  | [], fileIndex, currentOffset => .ok (fileIndex, currentOffset)
  | entry :: rest, fileIndex, currentOffset => do
      let next ← profile.add 64 currentOffset entry.length
      if next > pieceOffset then return (fileIndex, currentOffset)
      findFile pieceOffset rest (fileIndex + 1) next

/-- The writing loop from its current file on. Every file is written at the offset of
the piece in the torrent. -/
def writeFiles (pieceOffset : Nat) :
    List FileEntry → List Bytes → Nat → Bytes → List Bytes × Except (Fault DiskError) Unit
  | [], files, _, _ => (files, .ok ())
  | entry :: entries, files, fileOffset, data =>
      if data = [] then (files, .ok ())
      else match files with
        | [] => ([], .error .bounds)
        | file :: files =>
            -- The room counts from the offset in the file, the seek from the one in the torrent.
            match profile.sub 64 entry.length fileOffset with
            | .error fault => (file :: files, .error fault)
            | .ok room =>
                let lengthToWrite := min data.length room
                let written := writeAt file pieceOffset (data.take lengthToWrite)
                let later := writeFiles pieceOffset entries files 0 (data.drop lengthToWrite)
                (written :: later.1, later.2)

def writeMultiFilePiece (disk : DiskIo) (pieceIndex : UInt32) (data : Bytes)
    (fileEntries : List FileEntry) : List Bytes × Except (Fault DiskError) Unit :=
  match profile.mul 32 pieceIndex.toNat disk.pieceLength with
  | .error fault => (disk.files, .error fault)
  | .ok pieceOffset =>
      match findFile profile pieceOffset fileEntries 0 0 with
      | .error fault => (disk.files, .error fault)
      | .ok (fileIndex, currentOffset) =>
          if fileIndex ≥ fileEntries.length then (disk.files, .error (outOfBounds pieceIndex))
          else match profile.sub 64 pieceOffset currentOffset with
            | .error fault => (disk.files, .error fault)
            | .ok fileOffset =>
                let written := writeFiles profile pieceOffset (fileEntries.drop fileIndex)
                  (disk.files.drop fileIndex) fileOffset data
                (disk.files.take fileIndex ++ written.1, written.2)

def DiskIo.writePiece (disk : DiskIo) (pieceIndex : UInt32) (data : Bytes) :
    DiskIo × Except (Fault DiskError) Unit :=
  match profile.mul 32 pieceIndex.toNat disk.pieceLength with
  | .error fault => (disk, .error fault)
  | .ok pieceOffset =>
      if pieceOffset ≥ disk.totalSize then (disk, .error (outOfBounds pieceIndex))
      else match disk.fileDetails with
        | .singleFile _ =>
            match disk.files with
            | [] => (disk, .error .bounds)
            | file :: files =>
                ({ disk with files := writeAt file pieceOffset data :: files }, .ok ())
        | .multiFile files =>
            let written := writeMultiFilePiece profile disk pieceIndex data files
            ({ disk with files := written.1 }, written.2)

/-- The reading loop from its current file on; what no file fills stays zero. -/
def readFiles :
    List FileEntry → List Bytes → Nat → Nat → Except (Fault DiskError) Bytes
  | [], _, _, remaining => .ok (List.replicate remaining 0)
  | entry :: entries, files, fileOffset, remaining =>
      if remaining = 0 then .ok []
      else match files with
        | [] => .error .bounds
        | file :: files => do
            let room ← profile.sub 64 entry.length fileOffset
            let bytesToRead := min remaining room
            let bytes ← readAt file fileOffset bytesToRead
            let later ← readFiles entries files 0 (remaining - bytesToRead)
            return bytes ++ later

def readMultiFilePiece (disk : DiskIo) (pieceIndex : UInt32) (bufferLength : Nat)
    (fileEntries : List FileEntry) : Except (Fault DiskError) Bytes := do
  let pieceOffset ← profile.mul 32 pieceIndex.toNat disk.pieceLength
  let (fileIndex, currentOffset) ← findFile profile pieceOffset fileEntries 0 0
  if fileIndex ≥ fileEntries.length then throw (outOfBounds pieceIndex)
  let fileOffset ← profile.sub 64 pieceOffset currentOffset
  readFiles profile (fileEntries.drop fileIndex) (disk.files.drop fileIndex) fileOffset
    bufferLength

def DiskIo.readPiece (disk : DiskIo) (pieceIndex : UInt32) : Except (Fault DiskError) Bytes := do
  -- Both products are 32 bits wide and only then compared with the total.
  let pieceOffset ← profile.mul 32 pieceIndex.toNat disk.pieceLength
  if pieceOffset ≥ disk.totalSize then throw (outOfBounds pieceIndex)
  let next ← profile.add 32 pieceIndex.toNat 1
  let pieceEnd ← profile.mul 32 next disk.pieceLength
  let pieceSize ←
    if pieceEnd > disk.totalSize then profile.sub 64 disk.totalSize pieceOffset
    else pure disk.pieceLength
  match disk.fileDetails with
  | .singleFile _ =>
      match disk.files with
      | [] => throw .bounds
      | file :: _ => readAt file pieceOffset pieceSize
  | .multiFile files => readMultiFilePiece profile disk pieceIndex pieceSize files

end Pieces

end MotteSeed.Disk
