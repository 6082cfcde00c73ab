import MotteSeed.TrackerUrl
import MotteSeed.UdpRequests
import MotteSeed.Toolkit.FormQuery

/-! An announce as the tracker reads it. The query of the URL is taken apart at its
ampersands and equals signs, the values are decoded, and the tracker learns from it what it
would learn from the datagram. -/
namespace MotteSeed.AnnounceQuery
open Toolkit Toolkit.FormQuery PeerWire TorrentMeta PieceStore Tracker HttpTracker TrackerUrl
  UdpTracker UdpRequests

section Reading

structure Announced where
  infoHash : Hash
  peerId : Hash
  port : UInt16
  stats : TorrentStats
  deriving DecidableEq

def announced : Request → Option Announced
  | .connect _ => none
  | .announce _ _ request stats =>
      some { infoHash := request.infoHash, peerId := request.peerId, port := request.port, stats }

def readHash (text : Bytes) : Option Hash := (Percent.decode text).bind (toArray 20)

def readWord (text : Bytes) : Option UInt64 :=
  (number text).bind fun value => if value < 2 ^ 64 then some (UInt64.ofNat value) else none

def readPort (text : Bytes) : Option UInt16 :=
  (number text).bind fun value => if value < 2 ^ 16 then some (UInt16.ofNat value) else none

def readFlag (text : Bytes) : Option Bool :=
  if text = [49] then some true else if text = [48] then some false else none

/-- The values are found by their names, in any order, and other fields are skipped. -/
def readQuery (query : Bytes) : Option (Announced × Bool) := do
  let fields := read query
  let infoHash ← readHash (← fields.lookup (fromStr "info_hash"))
  let peerId ← readHash (← fields.lookup (fromStr "peer_id"))
  let port ← readPort (← fields.lookup (fromStr "port"))
  let uploaded ← readWord (← fields.lookup (fromStr "uploaded"))
  let downloaded ← readWord (← fields.lookup (fromStr "downloaded"))
  let left ← readWord (← fields.lookup (fromStr "left"))
  let compact ← readFlag (← fields.lookup (fromStr "compact"))
  return ({ infoHash, peerId, port, stats := { downloaded, uploaded, left } }, compact)

end Reading

section Values

theorem read_hash_encode (hash : Hash) : readHash (urlEncode hash) = some hash := by
  have decoded : Percent.decode (urlEncode hash) = some hash.toList :=
    Percent.decode_all encodeByte UrlEncoding.encode_byte_writes hash.toList
  rw [readHash, decoded, Option.bind_some, to_array_to_list]

theorem read_word_format (word : UInt64) : readWord (format word.toNat) = some word := by
  rw [readWord, show format word.toNat = digits word.toNat from rfl, number_digits,
    Option.bind_some, if_pos word.toNat_lt, UInt64.ofNat_toNat]

theorem read_port_format (port : UInt16) : readPort (format port.toNat) = some port := by
  rw [readPort, show format port.toNat = digits port.toNat from rfl, number_digits,
    Option.bind_some, if_pos port.toNat_lt, UInt16.ofNat_toNat]

theorem read_flag_compact (compact : Bool) :
    readFlag [if compact then 49 else 48] = some compact := by
  cases compact with
  | true => rfl
  | false => rfl

theorem format_unmarked (number : Nat) : 38 ∉ format number := by
  intro member
  obtain ⟨low, -⟩ := digits_digit number 38 member
  exact absurd low (by decide)

theorem url_encode_unmarked (hash : Hash) : 38 ∉ urlEncode hash :=
  Percent.encoded_excludes _ (UrlEncoding.url_encode_encoded hash) 38 (by decide) (by decide)

end Values

section Queries

def fields (request : AnnounceRequestHttp) (stats : TorrentStats) : List (Bytes × Bytes) :=
  [(fromStr "info_hash", request.urlInfoHash), (fromStr "peer_id", request.urlPeerId),
    (fromStr "port", format request.port.toNat),
    (fromStr "uploaded", format stats.uploaded.toNat),
    (fromStr "downloaded", format stats.downloaded.toNat),
    (fromStr "left", format stats.left.toNat),
    (fromStr "compact", [if request.compact then 49 else 48])]

theorem parameters_write (request : AnnounceRequestHttp) (stats : TorrentStats) :
    request.parameters stats = write (fields request stats) := by
  have first : fromStr "info_hash=" = fromStr "info_hash" ++ [61] := rfl
  have second : fromStr "&peer_id=" = 38 :: (fromStr "peer_id" ++ [61]) := rfl
  have third : fromStr "&port=" = 38 :: (fromStr "port" ++ [61]) := rfl
  have fourth : fromStr "&uploaded=" = 38 :: (fromStr "uploaded" ++ [61]) := rfl
  have fifth : fromStr "&downloaded=" = 38 :: (fromStr "downloaded" ++ [61]) := rfl
  have sixth : fromStr "&left=" = 38 :: (fromStr "left" ++ [61]) := rfl
  have last : fromStr "&compact=" = 38 :: (fromStr "compact" ++ [61]) := rfl
  rw [AnnounceRequestHttp.parameters, first, second, third, fourth, fifth, sixth, last]
  simp only [write, fields, writeField, List.map_cons, List.map_nil, List.intercalate_cons_cons,
    List.intercalate_singleton, List.append_assoc, List.cons_append, List.nil_append]

theorem names_plain : ∀ name ∈ [fromStr "info_hash", fromStr "peer_id", fromStr "port",
    fromStr "uploaded", fromStr "downloaded", fromStr "left", fromStr "compact"],
    61 ∉ name ∧ 38 ∉ name := by decide

theorem fields_plain (request : AnnounceRequestHttp) (stats : TorrentStats)
    (infoHash : 38 ∉ request.urlInfoHash) (peerId : 38 ∉ request.urlPeerId) :
    ∀ field ∈ fields request stats, Plain field := by
  have flag : (38 : UInt8) ∉ [if request.compact then (49 : UInt8) else 48] := by
    cases request.compact with
    | true => decide
    | false => decide
  have values : ∀ field ∈ fields request stats, 38 ∉ field.2 := by
    simp only [fields, List.forall_mem_cons]
    exact ⟨infoHash, peerId, format_unmarked _, format_unmarked _, format_unmarked _,
      format_unmarked _, flag, nofun⟩
  intro field member
  refine ⟨names_plain field.1 ?_, values field member⟩
  exact List.mem_map.mpr ⟨field, member, rfl⟩

theorem lookup_fields (request : AnnounceRequestHttp) (stats : TorrentStats) :
    (fields request stats).lookup (fromStr "info_hash") = some request.urlInfoHash ∧
      (fields request stats).lookup (fromStr "peer_id") = some request.urlPeerId ∧
      (fields request stats).lookup (fromStr "port") = some (format request.port.toNat) ∧
      (fields request stats).lookup (fromStr "uploaded") =
        some (format stats.uploaded.toNat) ∧
      (fields request stats).lookup (fromStr "downloaded") =
        some (format stats.downloaded.toNat) ∧
      (fields request stats).lookup (fromStr "left") = some (format stats.left.toNat) ∧
      (fields request stats).lookup (fromStr "compact") =
        some [if request.compact then 49 else 48] :=
  ⟨rfl, rfl, rfl, rfl, rfl, rfl, rfl⟩

theorem read_parameters (tracker : Bytes) (infoHash peerId : Hash) (port : UInt16)
    (compact : Bool) (request : AnnounceRequestHttp)
    (made : AnnounceRequestHttp.new tracker infoHash peerId port compact = .ok request)
    (stats : TorrentStats) : readQuery (request.parameters stats) =
      some ({ infoHash, peerId, port, stats }, compact) := by
  rw [AnnounceRequestHttp.new] at made
  split at made
  · obtain rfl := Except.ok.inj made
    rw [readQuery, parameters_write, read_write _ (by simp [fields]) (fields_plain _ stats
      (url_encode_unmarked infoHash) (url_encode_unmarked peerId))]
    obtain ⟨first, second, third, fourth, fifth, sixth, last⟩ := lookup_fields
      { tracker, urlInfoHash := urlEncode infoHash, urlPeerId := urlEncode peerId, port, compact }
      stats
    simp only [first, second, third, fourth, fifth, sixth, last, Option.bind_eq_bind,
      Option.bind_some, read_hash_encode, read_port_format, read_word_format, read_flag_compact,
      pure]
  · cases made

end Queries

section Trackers

end Trackers

end MotteSeed.AnnounceQuery
