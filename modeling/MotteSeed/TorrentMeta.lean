import MotteSeed.PeerWire
import MotteSeed.Toolkit.ByteImage

/-! Torrent files: `torrent.rs` over the helpers of `bencode_decodable.rs`. The
parser and the encoder of bencoded values and SHA-1 come from other crates and
are parameters. The name of a torrent is kept as raw bytes; its lossy conversion
to text never fails and no modelled function reads the text. -/
namespace MotteSeed.TorrentMeta
open Toolkit Toolkit.Checked PeerWire

inductive Bencode where
  | empty
  | number (value : Int)
  | byteString (bytes : Bytes)
  | list (items : List Bencode)
  | dict (entries : List (Bytes × Bencode))

/-- A missing key is reported as `Key '<key>' not found`. -/
inductive BencodeDecodableError where
  | keyNotFound (key : Bytes)
  | wrongType (expected : String)
  | other (reason : String)
  deriving DecidableEq

inductive ReadTorrentError where
  | streaming
  | bencodeDecodable (reason : BencodeDecodableError)
  deriving DecidableEq

abbrev Hash := Vector UInt8 20

abbrev Dict := List (Bytes × Bencode)

section Helpers

def fromStr (text : String) : Bytes := text.toUTF8.data.toList

def getU64 : Bencode → Except BencodeDecodableError Nat
  | .number value =>
      if 0 ≤ value ∧ value < 2 ^ 64 then .ok value.toNat
      else .error (.wrongType "Expected a Number")
  | _ => .error (.wrongType "Expected a Number")

def getStr : Bencode → Except BencodeDecodableError Bytes
  | .byteString bytes => .ok bytes
  | _ => .error (.wrongType "Expected a ByteString")

def getStruct : Bencode → Except BencodeDecodableError Dict
  | .dict entries => .ok entries
  | _ => .error (.wrongType "Expected a dictionary")

def getStructValueFromBytestring (key : Bytes) (dict : Dict) :
    Except BencodeDecodableError Bencode :=
  match dict.lookup key with
  | some value => .ok value
  | none => .error (.keyNotFound key)

def getStructValue (key : String) (dict : Dict) : Except BencodeDecodableError Bencode :=
  getStructValueFromBytestring (fromStr key) dict

def getList : Bencode → Except BencodeDecodableError (List Bencode)
  | .list items => .ok items
  | _ => .error (.wrongType "Expected a list")

/-- An optional entry: a missing key or a value of the wrong type is `None`. -/
def optionalValue {α : Type} (get : Bencode → Except BencodeDecodableError α) (key : String)
    (dict : Dict) : Option α :=
  (getStructValue key dict).toOption.bind fun value => (get value).toOption

end Helpers

structure FileEntry where
  length : Nat
  path : List Bytes
  deriving DecidableEq

inductive FileDetails where
  | singleFile (length : Nat)
  | multiFile (files : List FileEntry)
  deriving DecidableEq

structure Info where
  name : Bytes
  pieceLength : Nat
  rawPieces : Bytes
  fileDetails : FileDetails
  isPrivate : Option Nat
  source : Option Bytes

structure Torrent where
  announce : Bytes
  info : Info
  infoHash : Hash
  comment : Option Bytes
  createdBy : Option Bytes
  creationDate : Option Nat
  encoding : Option Bytes
  announceList : Option (List (List Bytes))

def toHash (bytes : Bytes) : Option Hash :=
  if size : bytes.length = 20 then some ⟨bytes.toArray, by simpa using size⟩ else none

def Info.pieceHash (info : Info) (index : Nat) : Option Hash :=
  let start := index * 20
  let stop := start + 20
  if stop ≤ info.rawPieces.length then
    toHash (ByteImage.slice info.rawPieces start (stop - start))
  else none

def FileEntry.decode (b : Bencode) : Except BencodeDecodableError FileEntry := do
  let dict ← getStruct b
  let length ← getU64 (← getStructValueFromBytestring (fromStr "length") dict)
  let pathList ← getList (← getStructValueFromBytestring (fromStr "path") dict)
  let path ← pathList.mapM getStr
  return { length, path }

/-- Present `length` means a single file, whatever else is there. -/
def decodeFileDetails (dict : Dict) : Except BencodeDecodableError FileDetails :=
  match getStructValue "length" dict with
  | .ok b => do return .singleFile (← getU64 b)
  | .error _ => do
      let fileList ← getList (← getStructValue "files" dict)
      return .multiFile (← fileList.mapM FileEntry.decode)

def Info.decode (b : Bencode) : Except BencodeDecodableError Info := do
  let dict ← getStruct b
  let name ← getStr (← getStructValue "name" dict)
  let pieceLength ← getU64 (← getStructValue "piece length" dict)
  let rawPieces ← getStr (← getStructValue "pieces" dict)
  if rawPieces.length % 20 ≠ 0 then throw (.other "Invalid pieces length")
  let fileDetails ← decodeFileDetails dict
  return { name, pieceLength, rawPieces, fileDetails
           isPrivate := optionalValue getU64 "private" dict
           source := optionalValue getStr "source" dict }

/-- Backup trackers: what is not a list of strings is dropped, level by level. -/
def announceTiers (value : Bencode) : Option (List (List Bytes)) :=
  (getList value).toOption.map fun outer =>
    outer.filterMap fun inner =>
      (getList inner).toOption.map fun urls => urls.filterMap fun url => (getStr url).toOption

section Crates

structure Crates where
  fromBuffer : Bytes → Option Bencode
  toBytes : Bencode → Except String Bytes
  sha1 : Bytes → Hash

variable (crates : Crates)

def Torrent.decode (b : Bencode) : Except BencodeDecodableError Torrent := do
  let dict ← getStruct b
  let announce ← getStr (← getStructValue "announce" dict)
  let infoDict ← getStructValue "info" dict
  let info ← Info.decode infoDict
  let infoBytes ← (crates.toBytes infoDict).mapError .other
  return { announce, info
           infoHash := crates.sha1 infoBytes
           comment := optionalValue getStr "comment" dict
           createdBy := optionalValue getStr "created by" dict
           creationDate := optionalValue getU64 "creation date" dict
           encoding := optionalValue getStr "encoding" dict
           announceList := (getStructValue "announce-list" dict).toOption.bind announceTiers }

def fromBytes (bytes : Bytes) : Except ReadTorrentError Torrent :=
  match crates.fromBuffer bytes with
  | none => .error .streaming
  | some b => (Torrent.decode crates b).mapError .bencodeDecodable

end Crates

def FileDetails.totalSize : FileDetails → Nat
  | .singleFile length => length
  | .multiFile files => (files.map FileEntry.length).sum

def fourByteTorrent (total : Nat) (hashes : Bytes) : Torrent :=
  { announce := []
    info :=
      { name := [], pieceLength := 4, rawPieces := hashes
        fileDetails := .singleFile total, isPrivate := none, source := none }
    infoHash := Vector.replicate 20 0
    comment := none, createdBy := none, creationDate := none, encoding := none
    announceList := none }

theorem to_hash_some_iff (bytes : Bytes) (hash : Hash) :
    toHash bytes = some hash ↔ bytes = hash.toList := by
  unfold toHash
  by_cases size : bytes.length = 20
  · rw [dif_pos size, Option.some.injEq]
    constructor
    · rintro rfl
      simp [Vector.toList]
    · rintro rfl
      simp [Vector.toList]
  · rw [dif_neg size]
    constructor
    · intro absurd
      cases absurd
    · rintro rfl
      simp at size

theorem piece_hash_some_iff (info : Info) (index : Nat) (hash : Hash) :
    info.pieceHash index = some hash ↔
      index * 20 + 20 ≤ info.rawPieces.length ∧
        hash.toList = ByteImage.slice info.rawPieces (index * 20) 20 := by
  simp only [Info.pieceHash]
  by_cases inside : index * 20 + 20 ≤ info.rawPieces.length
  · rw [if_pos inside, to_hash_some_iff, Nat.add_sub_cancel_left]
    exact ⟨fun same => ⟨inside, same.symm⟩, fun same => same.2.symm⟩
  · rw [if_neg inside]
    constructor
    · intro absurd
      cases absurd
    · intro both
      exact absurd both.1 inside

theorem piece_hash_isSome (info : Info) (index : Nat)
    (inside : index < info.rawPieces.length / 20) : ∃ hash, info.pieceHash index = some hash := by
  have room : index * 20 + 20 ≤ info.rawPieces.length := by omega
  have size : (ByteImage.slice info.rawPieces (index * 20) 20).length = 20 := by
    rw [ByteImage.slice, List.length_take, List.length_drop]
    omega
  refine ⟨⟨(ByteImage.slice info.rawPieces (index * 20) 20).toArray, by simpa using size⟩, ?_⟩
  rw [piece_hash_some_iff]
  exact ⟨room, by simp [Vector.toList]⟩

structure Info.WellFormed (info : Info) : Prop where
  whole_hashes : info.rawPieces.length % 20 = 0
  piece_length : info.pieceLength < 2 ^ 64
  file_lengths : ∀ files, info.fileDetails = .multiFile files →
    ∀ entry ∈ files, entry.length < 2 ^ 64

theorem get_u64_bound (b : Bencode) (value : Nat) (read : getU64 b = .ok value) :
    value < 2 ^ 64 := by
  cases b with
  | number number =>
      simp only [getU64] at read
      split at read
      · rename_i inside
        cases read
        omega
      · cases read
  | empty | byteString | list | dict => cases read

theorem file_entry_bound (b : Bencode) (entry : FileEntry)
    (accepted : FileEntry.decode b = .ok entry) : entry.length < 2 ^ 64 := by
  simp only [FileEntry.decode, bind_ok_iff, pure, Except.pure, Except.ok.injEq] at accepted
  obtain ⟨dict, -, value, -, length, read, pathList, -, list, -, path, -, rfl⟩ := accepted
  exact get_u64_bound value length read

theorem file_details_bound (dict : Dict) (files : List FileEntry)
    (accepted : decodeFileDetails dict = .ok (.multiFile files)) :
    ∀ entry ∈ files, entry.length < 2 ^ 64 := by
  intro entry member
  unfold decodeFileDetails at accepted
  split at accepted
  · simp only [bind_ok_iff, pure, Except.pure, Except.ok.injEq, reduceCtorEq, and_false,
      exists_false] at accepted
  · simp only [bind_ok_iff, pure, Except.pure, Except.ok.injEq, FileDetails.multiFile.injEq]
      at accepted
    obtain ⟨value, -, list, -, decoded, mapped, rfl⟩ := accepted
    obtain ⟨item, -, read⟩ := map_ok_mem FileEntry.decode list decoded mapped entry member
    exact file_entry_bound item entry read

theorem info_decode_well_formed (b : Bencode) (info : Info)
    (accepted : Info.decode b = .ok info) : info.WellFormed := by
  simp only [Info.decode, bind_ok_iff, pure, Except.pure] at accepted
  obtain ⟨dict, -, text, -, name, -, word, -, pieceLength, number, pieces, -, rawPieces, -,
    rest⟩ := accepted
  split at rest
  · cases rest
  · rename_i whole
    simp only [bind_ok_iff, Except.ok.injEq] at rest
    obtain ⟨fileDetails, decoded, rfl⟩ := rest
    refine ⟨not_not.mp whole, get_u64_bound word pieceLength number, ?_⟩
    rintro files rfl
    exact file_details_bound dict files decoded

end MotteSeed.TorrentMeta
