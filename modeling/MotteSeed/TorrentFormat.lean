import MotteSeed.TorrentMeta

/-! What torrent files the decoders of `torrent.rs` accept: every value in range can be
written as a dictionary that is read back, whatever other entries stand in it, and nothing
else comes out of a decoder. -/
namespace MotteSeed.TorrentFormat
open Toolkit Toolkit.Checked PeerWire TorrentMeta

section Records

def record (entries : List (Bytes × Option Bencode)) : Dict :=
  entries.filterMap fun entry => entry.2.map (Prod.mk entry.1)

theorem lookup_record (entries : List (Bytes × Option Bencode)) (extra : Dict) (key : Bytes)
    (distinct : (entries.map Prod.fst).Nodup) (fresh : extra.lookup key = none) :
    (record entries ++ extra).lookup key = (entries.lookup key).join := by
  induction entries with
  | nil => exact fresh
  | cons entry rest ih =>
      obtain ⟨name, value⟩ := entry
      obtain ⟨absent, later⟩ := List.nodup_cons.mp distinct
      have tail := ih later
      by_cases here : key = name
      · subst here
        have none_left : rest.lookup key = none := by
          refine List.lookup_eq_none_iff.mpr fun other member => ?_
          refine bne_iff_ne.mpr ?_
          rintro rfl
          exact absent (List.mem_map.mpr ⟨other, member, rfl⟩)
        rw [none_left] at tail
        cases value with
        | none => simpa [record] using tail
        | some found => simp [record]
      · have apart : (key == name) = false := beq_false_of_ne here
        rw [List.lookup_cons, apart]
        cases value with
        | none => simpa [record] using tail
        | some found => simpa [record, List.lookup_cons, apart] using tail

variable (entries : List (Bytes × Option Bencode)) (extra : Dict) (key : String)
  (distinct : (entries.map Prod.fst).Nodup) (fresh : extra.lookup (fromStr key) = none)
include distinct fresh

theorem struct_value (value : Bencode) (here : entries.lookup (fromStr key) = some (some value)) :
    getStructValue key (record entries ++ extra) = .ok value := by
  rw [getStructValue, getStructValueFromBytestring, lookup_record entries extra _ distinct fresh,
    here]
  rfl

theorem struct_value_missing (here : entries.lookup (fromStr key) = some none) :
    getStructValue key (record entries ++ extra) = .error (.keyNotFound (fromStr key)) := by
  rw [getStructValue, getStructValueFromBytestring, lookup_record entries extra _ distinct fresh,
    here]
  rfl

theorem optional_value {Item : Type} (get : Bencode → Except BencodeDecodableError Item)
    (encode : Item → Bencode) (value : Option Item)
    (here : entries.lookup (fromStr key) = some (value.map encode))
    (back : ∀ item, value = some item → get (encode item) = .ok item) :
    optionalValue get key (record entries ++ extra) = value := by
  cases value with
  | none =>
      rw [optionalValue, struct_value_missing entries extra key distinct fresh here]
      rfl
  | some item =>
      rw [optionalValue, struct_value entries extra key distinct fresh (encode item) here]
      change (get (encode item)).toOption = some item
      rw [back item rfl]
      rfl

end Records

section Values

def number (value : Nat) : Bencode := .number value

theorem get_u64_number (value : Nat) (small : value < 2 ^ 64) :
    getU64 (number value) = .ok value := by
  rw [number, getU64, if_pos (by omega), Int.toNat_natCast]

theorem map_decoded {Item Fault : Type} (decode : Bencode → Except Fault Item)
    (encode : Item → Bencode) (items : List Item)
    (back : ∀ item ∈ items, decode (encode item) = .ok item) :
    (items.map encode).mapM decode = .ok items := by
  induction items with
  | nil => rfl
  | cons item rest ih =>
      rw [List.map_cons, List.mapM_cons, back item List.mem_cons_self,
        ih fun other member => back other (List.mem_cons_of_mem item member)]
      rfl

end Values

section Info

def fileEntries (file : FileEntry) : List (Bytes × Option Bencode) :=
  [(fromStr "length", some (number file.length)),
    (fromStr "path", some (.list (file.path.map .byteString)))]

def encodeFile (file : FileEntry) : Bencode := .dict (record (fileEntries file) ++ [])

def infoEntries (info : Info) : List (Bytes × Option Bencode) :=
  [(fromStr "name", some (.byteString info.name)),
    (fromStr "piece length", some (number info.pieceLength)),
    (fromStr "pieces", some (.byteString info.rawPieces)),
    (fromStr "length", match info.fileDetails with
      | .singleFile length => some (number length)
      | .multiFile _ => none),
    (fromStr "files", match info.fileDetails with
      | .singleFile _ => none
      | .multiFile files => some (.list (files.map encodeFile))),
    (fromStr "private", info.isPrivate.map number),
    (fromStr "source", info.source.map .byteString)]

def encodeInfo (info : Info) (others : Dict) : Bencode :=
  .dict (record (infoEntries info) ++ others)

def infoKeys : List Bytes :=
  [fromStr "name", fromStr "piece length", fromStr "pieces", fromStr "length", fromStr "files",
    fromStr "private", fromStr "source"]

structure Encodable (limit : Nat) (info : Info) : Prop where
  pieceLength : info.pieceLength < limit
  hashes : info.rawPieces.length % 20 = 0
  single : ∀ length, info.fileDetails = .singleFile length → length < limit
  multi : ∀ files, info.fileDetails = .multiFile files → ∀ file ∈ files, file.length < limit
  isPrivate : ∀ value, info.isPrivate = some value → value < limit

theorem file_keys_distinct : [fromStr "length", fromStr "path"].Nodup := by decide

theorem decode_file (file : FileEntry) (small : file.length < 2 ^ 64) :
    FileEntry.decode (encodeFile file) = .ok file := by
  have length : getStructValueFromBytestring (fromStr "length") (record (fileEntries file) ++ []) =
      .ok (number file.length) :=
    struct_value (fileEntries file) [] "length" file_keys_distinct rfl _ rfl
  have path : getStructValueFromBytestring (fromStr "path") (record (fileEntries file) ++ []) =
      .ok (.list (file.path.map .byteString)) :=
    struct_value (fileEntries file) [] "path" file_keys_distinct rfl _ rfl
  have names : (file.path.map Bencode.byteString).mapM getStr = .ok file.path :=
    map_decoded getStr .byteString file.path fun _ _ => rfl
  rw [FileEntry.decode, encodeFile]
  simp only [bind_ok_iff, getStruct, Except.ok.injEq, exists_eq_left', length, path, getList,
    names, get_u64_number file.length small]
  rfl

theorem info_keys_distinct : infoKeys.Nodup := by decide

variable (info : Info) (others : Dict) (fresh : ∀ key ∈ infoKeys, others.lookup key = none)
include fresh

theorem info_value (key : String) (value : Bencode) (listed : fromStr key ∈ infoKeys)
    (here : (infoEntries info).lookup (fromStr key) = some (some value)) :
    getStructValue key (record (infoEntries info) ++ others) = .ok value :=
  struct_value (infoEntries info) others key info_keys_distinct (fresh _ listed) value here

theorem info_optional {Item : Type} (get : Bencode → Except BencodeDecodableError Item)
    (encode : Item → Bencode) (key : String) (value : Option Item)
    (listed : fromStr key ∈ infoKeys)
    (here : (infoEntries info).lookup (fromStr key) = some (value.map encode))
    (back : ∀ item, value = some item → get (encode item) = .ok item) :
    optionalValue get key (record (infoEntries info) ++ others) = value :=
  optional_value (infoEntries info) others key info_keys_distinct (fresh _ listed) get encode
    value here back

theorem decode_file_details (encodable : Encodable (2 ^ 64) info) :
    decodeFileDetails (record (infoEntries info) ++ others) = .ok info.fileDetails := by
  rw [decodeFileDetails]
  cases details : info.fileDetails with
  | singleFile length =>
      have here := info_value info others fresh "length" (number length) (by decide)
        (by rw [infoEntries, details]; rfl)
      simp only [here, get_u64_number length (encodable.single length details)]
      rfl
  | multiFile files =>
      have absent := struct_value_missing (infoEntries info) others "length" info_keys_distinct
        (fresh _ (by decide)) (by rw [infoEntries, details]; rfl)
      have here := info_value info others fresh "files" (.list (files.map encodeFile))
        (by decide) (by rw [infoEntries, details]; rfl)
      have decoded := map_decoded FileEntry.decode encodeFile files fun file member =>
        decode_file file (encodable.multi files details file member)
      simp only [absent, here, bind_ok_iff, getList, Except.ok.injEq, exists_eq_left', decoded]
      rfl

theorem decode_info (encodable : Encodable (2 ^ 64) info) :
    Info.decode (encodeInfo info others) = .ok info := by
  have name := info_value info others fresh "name" _ (by decide) rfl
  have pieceLength := info_value info others fresh "piece length" _ (by decide) rfl
  have pieces := info_value info others fresh "pieces" _ (by decide) rfl
  have isPrivate := info_optional info others fresh getU64 number "private" info.isPrivate
    (by decide) rfl fun value same => get_u64_number value (encodable.isPrivate value same)
  have source := info_optional info others fresh getStr .byteString "source" info.source
    (by decide) rfl fun _ _ => rfl
  have details := decode_file_details info others fresh encodable
  rw [Info.decode, encodeInfo]
  simp only [bind_ok_iff, getStruct, Except.ok.injEq, exists_eq_left', name, pieceLength, pieces,
    getStr, get_u64_number _ encodable.pieceLength, isPrivate, source, details,
    if_neg (not_not.mpr encodable.hashes)]
  rfl

end Info

section Numbers

inductive Part : Bencode → Bencode → Prop where
  | whole (value : Bencode) : Part value value
  | item (items : List Bencode) (item part : Bencode) (member : item ∈ items)
      (inside : Part item part) : Part (.list items) part
  | entry (entries : Dict) (entry : Bytes × Bencode) (part : Bencode) (member : entry ∈ entries)
      (inside : Part entry.2 part) : Part (.dict entries) part

/-- The crate keeps a number in 64 bits with a sign. -/
def Typed (b : Bencode) : Prop :=
  ∀ value, Part b (.number value) → -2 ^ 63 ≤ value ∧ value < 2 ^ 63

def ReadsBelow (limit : Nat) (b : Bencode) : Prop :=
  ∀ part value, Part b part → getU64 part = .ok value → value < limit

theorem reads_below (b : Bencode) : ReadsBelow (2 ^ 64) b :=
  fun part value _ read => get_u64_bound part value read

theorem typed_reads_below (b : Bencode) (typed : Typed b) : ReadsBelow (2 ^ 63) b := by
  intro part value inside read
  cases part with
  | number number =>
      have bound := (typed number inside).2
      rw [getU64] at read
      split at read
      · cases read
        omega
      · cases read
  | empty | byteString | list | dict => cases read

theorem item_reads_below (limit : Nat) (items : List Bencode)
    (below : ReadsBelow limit (.list items)) : ∀ item ∈ items, ReadsBelow limit item :=
  fun item member part value inside => below part value (.item items item part member inside)

theorem struct_reads_below (limit : Nat) (b value : Bencode) (dict : Dict) (key : Bytes)
    (below : ReadsBelow limit b) (opened : getStruct b = .ok dict)
    (found : getStructValueFromBytestring key dict = .ok value) : ReadsBelow limit value := by
  cases b with
  | dict entries =>
      obtain rfl := Except.ok.inj opened
      unfold getStructValueFromBytestring at found
      split at found
      · rename_i other here
        cases found
        obtain ⟨before, after, rfl, -⟩ := List.lookup_eq_some_iff.mp here
        exact fun part number inside => below part number
          (.entry _ (key, value) part (List.mem_append_right _ List.mem_cons_self) inside)
      · cases found
  | empty | byteString | list | number => cases opened

theorem typed_list (items : List Bencode) (typed : ∀ item ∈ items, Typed item) :
    Typed (.list items) := by
  rintro value (_ | ⟨_, item, _, member, inside⟩)
  exact typed item member value inside

theorem typed_dict (entries : Dict) (typed : ∀ entry ∈ entries, Typed entry.2) :
    Typed (.dict entries) := by
  rintro value (_ | _ | ⟨_, entry, _, member, inside⟩)
  exact typed entry member value inside

theorem typed_bytes (bytes : Bytes) : Typed (.byteString bytes) := by
  rintro value (_ | _)

theorem typed_number (value : Nat) (small : value < 2 ^ 63) : Typed (number value) := by
  rintro other (_ | _)
  omega

end Numbers

section Accepted

variable (limit : Nat)

theorem optional_bound (b : Bencode) (dict : Dict) (below : ReadsBelow limit b)
    (opened : getStruct b = .ok dict) (key : String) (value : Nat)
    (read : optionalValue getU64 key dict = some value) : value < limit := by
  obtain ⟨found, here, same⟩ := Option.bind_eq_some_iff.mp read
  have held : getStructValue key dict = .ok found := by
    cases listed : getStructValue key dict with
    | ok other => rw [listed] at here; exact congrArg Except.ok (Option.some.inj here)
    | error reason => rw [listed] at here; cases here
  cases number : getU64 found with
  | ok other =>
      rw [number] at same
      obtain rfl := Option.some.inj same
      exact struct_reads_below limit b found dict _ below opened held found other (.whole found)
        number
  | error reason =>
      rw [number] at same
      cases same

theorem file_bound (b : Bencode) (file : FileEntry) (below : ReadsBelow limit b)
    (accepted : FileEntry.decode b = .ok file) : file.length < limit := by
  simp only [FileEntry.decode, bind_ok_iff, pure, Except.pure, Except.ok.injEq] at accepted
  obtain ⟨dict, opened, value, found, length, read, pathList, -, list, -, path, -, rfl⟩ :=
    accepted
  exact struct_reads_below limit b value dict _ below opened found value length (.whole value) read

theorem details_bound (b : Bencode) (dict : Dict) (below : ReadsBelow limit b)
    (opened : getStruct b = .ok dict) (details : FileDetails)
    (accepted : decodeFileDetails dict = .ok details) :
    (∀ length, details = .singleFile length → length < limit) ∧
      ∀ files, details = .multiFile files → ∀ file ∈ files, file.length < limit := by
  unfold decodeFileDetails at accepted
  split at accepted
  · rename_i value found
    simp only [bind_ok_iff, pure, Except.pure, Except.ok.injEq] at accepted
    obtain ⟨length, read, rfl⟩ := accepted
    refine ⟨?_, nofun⟩
    rintro _ ⟨⟩
    exact struct_reads_below limit b value dict _ below opened found value length (.whole value)
      read
  · simp only [bind_ok_iff, pure, Except.pure, Except.ok.injEq] at accepted
    obtain ⟨value, found, list, listed, decoded, mapped, rfl⟩ := accepted
    refine ⟨nofun, ?_⟩
    rintro _ ⟨⟩ file member
    have inside := struct_reads_below limit b value dict _ below opened found
    cases value with
    | list items =>
        obtain rfl := Except.ok.inj listed
        obtain ⟨item, there, read⟩ := map_ok_mem FileEntry.decode items decoded mapped file member
        exact file_bound limit item file (item_reads_below limit items inside item there) read
    | empty | byteString | number | dict => cases listed

/-- An accepted dictionary has nothing but numbers that stand in it. -/
theorem decoded_encodable (b : Bencode) (info : Info) (below : ReadsBelow limit b)
    (accepted : Info.decode b = .ok info) : Encodable limit info := by
  have formed := info_decode_well_formed b info accepted
  simp only [Info.decode, bind_ok_iff, pure, Except.pure] at accepted
  obtain ⟨dict, opened, text, -, name, -, word, found, pieceLength, read, pieces, -, rawPieces, -,
    rest⟩ := accepted
  split at rest
  · cases rest
  · simp only [bind_ok_iff, Except.ok.injEq] at rest
    obtain ⟨fileDetails, decoded, rfl⟩ := rest
    obtain ⟨single, multi⟩ := details_bound limit b dict below opened fileDetails decoded
    exact ⟨struct_reads_below limit b word dict _ below opened found word pieceLength (.whole word)
      read, formed.whole_hashes, single, multi,
      fun value same => optional_bound limit b dict below opened "private" value same⟩

theorem typed_file (file : FileEntry) (small : file.length < 2 ^ 63) :
    Typed (encodeFile file) := by
  refine typed_dict _ fun entry member => ?_
  rw [List.append_nil, record, List.mem_filterMap] at member
  obtain ⟨⟨key, value⟩, listed, same⟩ := member
  obtain ⟨found, rfl, rfl⟩ := Option.map_eq_some_iff.mp same
  simp only [fileEntries, List.mem_cons, Prod.mk.injEq, Option.some.injEq, List.not_mem_nil,
    or_false] at listed
  rcases listed with ⟨-, rfl⟩ | ⟨-, rfl⟩
  · exact typed_number file.length small
  · refine typed_list _ fun item there => ?_
    obtain ⟨component, -, rfl⟩ := List.mem_map.mp there
    exact typed_bytes component

theorem typed_info (info : Info) (others : Dict) (encodable : Encodable (2 ^ 63) info)
    (typed : ∀ entry ∈ others, Typed entry.2) : Typed (encodeInfo info others) := by
  refine typed_dict _ fun entry member => ?_
  rcases List.mem_append.mp member with here | other
  · rw [record, List.mem_filterMap] at here
    obtain ⟨⟨key, value⟩, listed, same⟩ := here
    obtain ⟨found, rfl, rfl⟩ := Option.map_eq_some_iff.mp same
    simp only [infoEntries, List.mem_cons, Prod.mk.injEq, List.not_mem_nil, or_false] at listed
    rcases listed with ⟨-, same⟩ | ⟨-, same⟩ | ⟨-, same⟩ | ⟨-, same⟩ | ⟨-, same⟩ | ⟨-, same⟩ |
      ⟨-, same⟩
    · obtain rfl := Option.some.inj same
      exact typed_bytes info.name
    · obtain rfl := Option.some.inj same
      exact typed_number _ encodable.pieceLength
    · obtain rfl := Option.some.inj same
      exact typed_bytes info.rawPieces
    · cases details : info.fileDetails with
      | singleFile length =>
          rw [details] at same
          obtain rfl := Option.some.inj same
          exact typed_number length (encodable.single length details)
      | multiFile files =>
          rw [details] at same
          cases same
    · cases details : info.fileDetails with
      | singleFile length =>
          rw [details] at same
          cases same
      | multiFile files =>
          rw [details] at same
          obtain rfl := Option.some.inj same
          refine typed_list _ fun item there => ?_
          obtain ⟨file, listed, rfl⟩ := List.mem_map.mp there
          exact typed_file file (encodable.multi files details file listed)
    · obtain ⟨value, known, rfl⟩ := Option.map_eq_some_iff.mp same.symm
      exact typed_number value (encodable.isPrivate value known)
    · obtain ⟨text, -, rfl⟩ := Option.map_eq_some_iff.mp same.symm
      exact typed_bytes text
  · exact typed entry other

theorem encodable_widens (info : Info) (encodable : Encodable (2 ^ 63) info) :
    Encodable (2 ^ 64) info where
  pieceLength := Nat.lt_trans encodable.pieceLength (by decide)
  hashes := encodable.hashes
  single length same := Nat.lt_trans (encodable.single length same) (by decide)
  multi files same file member := Nat.lt_trans (encodable.multi files same file member) (by decide)
  isPrivate value same := Nat.lt_trans (encodable.isPrivate value same) (by decide)

end Accepted

section Torrents

def encodeTiers (tiers : List (List Bytes)) : Bencode :=
  .list (tiers.map fun urls => .list (urls.map .byteString))

theorem tiers_encode (tiers : List (List Bytes)) :
    announceTiers (encodeTiers tiers) = some tiers := by
  have urls_back : ∀ urls : List Bytes,
      (urls.map Bencode.byteString).filterMap (fun url => (getStr url).toOption) = urls := by
    intro urls
    rw [List.filterMap_map]
    exact List.filterMap_some
  have tiers_back : (tiers.map fun urls => Bencode.list (urls.map .byteString)).filterMap
      (fun inner => (getList inner).toOption.map fun urls =>
        urls.filterMap fun url => (getStr url).toOption) = tiers := by
    rw [List.filterMap_map]
    calc tiers.filterMap _
      _ = tiers.filterMap some := List.filterMap_congr fun urls _ => congrArg some (urls_back urls)
      _ = tiers := List.filterMap_some
  exact congrArg some tiers_back

def torrentEntries (torrent : Torrent) (infoDict : Bencode) : List (Bytes × Option Bencode) :=
  [(fromStr "announce", some (.byteString torrent.announce)), (fromStr "info", some infoDict),
    (fromStr "comment", torrent.comment.map .byteString),
    (fromStr "created by", torrent.createdBy.map .byteString),
    (fromStr "creation date", torrent.creationDate.map number),
    (fromStr "encoding", torrent.encoding.map .byteString),
    (fromStr "announce-list", torrent.announceList.map encodeTiers)]

def torrentKeys : List Bytes :=
  [fromStr "announce", fromStr "info", fromStr "comment", fromStr "created by",
    fromStr "creation date", fromStr "encoding", fromStr "announce-list"]

def encodeTorrent (torrent : Torrent) (infoDict : Bencode) (others : Dict) : Bencode :=
  .dict (record (torrentEntries torrent infoDict) ++ others)

theorem torrent_keys_distinct : torrentKeys.Nodup := by decide

theorem decode_torrent (crates : Crates) (torrent : Torrent) (infoDict : Bencode) (others : Dict)
    (fresh : ∀ key ∈ torrentKeys, others.lookup key = none)
    (info : Info.decode infoDict = .ok torrent.info) (bytes : Bytes)
    (written : crates.toBytes infoDict = .ok bytes)
    (dated : ∀ value, torrent.creationDate = some value → value < 2 ^ 64) :
    Torrent.decode crates (encodeTorrent torrent infoDict others) =
      .ok { torrent with infoHash := crates.sha1 bytes } := by
  have value : ∀ key found, fromStr key ∈ torrentKeys →
      (torrentEntries torrent infoDict).lookup (fromStr key) = some (some found) →
      getStructValue key (record (torrentEntries torrent infoDict) ++ others) = .ok found :=
    fun key found listed here => struct_value (torrentEntries torrent infoDict) others key
      torrent_keys_distinct (fresh _ listed) found here
  have text : ∀ key item, fromStr key ∈ torrentKeys →
      (torrentEntries torrent infoDict).lookup (fromStr key) =
        some (item.map Bencode.byteString) →
      optionalValue getStr key (record (torrentEntries torrent infoDict) ++ others) = item :=
    fun key item listed here => optional_value (torrentEntries torrent infoDict) others key
      torrent_keys_distinct (fresh _ listed) getStr .byteString item here fun _ _ => rfl
  have announce := value "announce" _ (by decide) rfl
  have infoHere := value "info" _ (by decide) rfl
  have comment := text "comment" torrent.comment (by decide) rfl
  have createdBy := text "created by" torrent.createdBy (by decide) rfl
  have encoding := text "encoding" torrent.encoding (by decide) rfl
  have creationDate := optional_value (torrentEntries torrent infoDict) others "creation date"
    torrent_keys_distinct (fresh _ (by decide)) getU64 number torrent.creationDate rfl
    fun date same => get_u64_number date (dated date same)
  have tiers : (getStructValue "announce-list"
      (record (torrentEntries torrent infoDict) ++ others)).toOption.bind announceTiers =
        torrent.announceList := by
    cases listed : torrent.announceList with
    | none =>
        rw [struct_value_missing (torrentEntries torrent infoDict) others "announce-list"
          torrent_keys_distinct (fresh _ (by decide)) (by rw [torrentEntries, listed]; rfl)]
        rfl
    | some tiers =>
        rw [value "announce-list" (encodeTiers tiers) (by decide)
          (by rw [torrentEntries, listed]; rfl)]
        exact tiers_encode tiers
  rw [Torrent.decode, encodeTorrent]
  simp only [bind_ok_iff, getStruct, Except.ok.injEq, exists_eq_left', announce, infoHere, getStr,
    info, written, Except.mapError, comment, createdBy, creationDate, encoding, tiers]
  rfl

theorem decoded_date (crates : Crates) (b : Bencode) (torrent : Torrent)
    (accepted : Torrent.decode crates b = .ok torrent) :
    (∃ infoDict, Info.decode infoDict = .ok torrent.info) ∧
      ∀ value, torrent.creationDate = some value → value < 2 ^ 64 := by
  simp only [Torrent.decode, bind_ok_iff, pure, Except.pure, Except.ok.injEq] at accepted
  obtain ⟨dict, opened, word, -, announce, -, infoDict, -, info, decoded, bytes, -, rfl⟩ :=
    accepted
  exact ⟨⟨infoDict, decoded⟩, fun value same =>
    optional_bound (2 ^ 64) b dict (reads_below b) opened "creation date" value same⟩

end Torrents

/-- From values of the crate's type the decoder of info dictionaries gives exactly what is in
range, and each of these can be written so that it is read back, with any other entries
beside it. -/
theorem info_accepted_iff (info : Info) :
    ((∃ b, Typed b ∧ Info.decode b = .ok info) ↔ Encodable (2 ^ 63) info) ∧
      (Encodable (2 ^ 63) info → ∀ others : Dict, (∀ key ∈ infoKeys, others.lookup key = none) →
        (∀ entry ∈ others, Typed entry.2) →
        Typed (encodeInfo info others) ∧ Info.decode (encodeInfo info others) = .ok info) := by
  have back : Encodable (2 ^ 63) info → ∀ others : Dict,
      (∀ key ∈ infoKeys, others.lookup key = none) → (∀ entry ∈ others, Typed entry.2) →
      Typed (encodeInfo info others) ∧ Info.decode (encodeInfo info others) = .ok info :=
    fun encodable others fresh typed => ⟨typed_info info others encodable typed,
      decode_info info others fresh (encodable_widens info encodable)⟩
  refine ⟨⟨fun ⟨b, typed, accepted⟩ => ?_, fun encodable => ?_⟩, back⟩
  · exact decoded_encodable (2 ^ 63) b info (typed_reads_below b typed) accepted
  · exact ⟨encodeInfo info [], back encodable [] (fun _ _ => rfl) (by simp)⟩

/-- An accepted torrent can be written again: the decoder reads the same from it, whatever
unknown entries are added, but for the hash of the info dictionary as it now stands. -/
theorem torrent_read_back (crates : Crates) (b : Bencode) (torrent : Torrent)
    (accepted : Torrent.decode crates b = .ok torrent) (infoOthers others : Dict)
    (infoFresh : ∀ key ∈ infoKeys, infoOthers.lookup key = none)
    (fresh : ∀ key ∈ torrentKeys, others.lookup key = none) (bytes : Bytes)
    (written : crates.toBytes (encodeInfo torrent.info infoOthers) = .ok bytes) :
    Torrent.decode crates (encodeTorrent torrent (encodeInfo torrent.info infoOthers) others) =
      .ok { torrent with infoHash := crates.sha1 bytes } := by
  obtain ⟨⟨infoDict, decoded⟩, dated⟩ := decoded_date crates b torrent accepted
  have info := decode_info torrent.info infoOthers infoFresh
    (decoded_encodable (2 ^ 64) _ _ (reads_below infoDict) decoded)
  exact decode_torrent crates torrent _ others fresh info bytes written dated

def fullTorrent : Torrent where
  announce := fromStr "http://t/a"
  info :=
    { name := fromStr "n"
      pieceLength := 4
      rawPieces := List.replicate 20 7
      fileDetails := .multiFile [⟨1, [fromStr "d", fromStr "x"]⟩, ⟨3, [fromStr "y"]⟩]
      isPrivate := some 1
      source := some (fromStr "s") }
  infoHash := Vector.replicate 20 9
  comment := some (fromStr "c")
  createdBy := some (fromStr "p")
  creationDate := some 1700000000
  encoding := some (fromStr "UTF-8")
  announceList := some [[fromStr "http://t/a", fromStr "udp://u:1"], []]

def countingCrates : Crates where
  fromBuffer _ := none
  toBytes
    | .dict entries => .ok [UInt8.ofNat entries.length]
    | _ => .error "not a dictionary"
  sha1 bytes := Vector.replicate 20 (bytes.headD 0)

/-- With an entry more in either dictionary the torrent is the same but for its hash. -/
theorem torrent_read_back_full :
    Torrent.decode countingCrates (encodeTorrent fullTorrent
        (encodeInfo fullTorrent.info [(fromStr "md5sum", .byteString [1, 2])])
        [(fromStr "url-list", .list [.number 5])]) =
      .ok { fullTorrent with infoHash := Vector.replicate 20 7 } :=
  torrent_read_back countingCrates
    (encodeTorrent fullTorrent (encodeInfo fullTorrent.info [(fromStr "a", .empty),
      (fromStr "b", .empty), (fromStr "c", .empty)]) [])
    fullTorrent rfl [(fromStr "md5sum", .byteString [1, 2])]
    [(fromStr "url-list", .list [.number 5])] (by decide) (by decide) [7] rfl

end MotteSeed.TorrentFormat
