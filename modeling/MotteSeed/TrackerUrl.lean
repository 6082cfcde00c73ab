import MotteSeed.UrlEncoding
import Mathlib.Data.List.TakeWhile

/-! The URL of an announce over HTTP. The path that the code starts from never holds
the question mark it looks for, so the parameters become the whole query and the query
of the tracker's own URL is lost. -/
namespace MotteSeed.TrackerUrl
open Toolkit Toolkit.Checked PeerWire TorrentMeta PieceStore Tracker HttpTracker

section Splitting

def beforeQuery (text : Bytes) : Bytes := text.takeWhile fun b => b != 63

def behindQuery (text : Bytes) : Option Bytes :=
  match text.dropWhile fun b => b != 63 with
  | [] => none
  | _ :: rest => some rest

theorem no_mark (front : Bytes) (plain : 63 ∉ front) : ∀ b ∈ front, (b != 63) = true := by
  intro b member
  rw [bne_iff_ne]
  rintro rfl
  exact plain member

theorem before_query_append (front rest : Bytes) (plain : 63 ∉ front) :
    beforeQuery (front ++ 63 :: rest) = front := by
  rw [beforeQuery, List.takeWhile_append_of_pos (no_mark front plain)]
  simp

theorem behind_query_append (front rest : Bytes) (plain : 63 ∉ front) :
    behindQuery (front ++ 63 :: rest) = some rest := by
  rw [behindQuery, List.dropWhile_append_of_pos (no_mark front plain)]
  simp

/-- What the code relies on of the `http` crate: a path is not empty and ends before
the first question mark, text without a fragment is split there, and building from
parts keeps them. -/
structure Lawful (crate : HttpCrate) : Prop where
  path_some : ∀ pathAndQuery, crate.path pathAndQuery ≠ []
  path_plain : ∀ pathAndQuery, 63 ∉ crate.path pathAndQuery ∧ 35 ∉ crate.path pathAndQuery
  split : ∀ text pathAndQuery, 35 ∉ text → crate.tryFrom text = some pathAndQuery →
    crate.path pathAndQuery =
        (if beforeQuery text = [] then fromStr "/" else beforeQuery text) ∧
      crate.query pathAndQuery = behindQuery text
  preserved : ∀ parts uri, crate.fromParts parts = some uri → crate.intoParts uri = parts

end Splitting

section Parameters

theorem url_encode_plain (bytes : Hash) : 35 ∉ urlEncode bytes :=
  Percent.encoded_excludes _ (UrlEncoding.url_encode_encoded bytes) 35 (by decide) (by decide)

theorem format_plain (number : Nat) : 35 ∉ format number := by
  intro member
  obtain ⟨digit, inside, same⟩ := List.mem_map.mp member
  have decimal := Nat.isDigit_of_mem_toDigits (by decide) (by decide) inside
  simp only [Char.isDigit, Bool.and_eq_true, decide_eq_true_eq] at decimal
  have low : 48 ≤ digit.toNat := UInt32.le_iff_toNat_le.mp decimal.1
  have high : digit.toNat ≤ 57 := UInt32.le_iff_toNat_le.mp decimal.2
  have value := congrArg UInt8.toNat same
  rw [UInt8.toNat_ofNat', Nat.mod_eq_of_lt (by omega)] at value
  have sign : (35 : UInt8).toNat = 35 := rfl
  omega

theorem request_encoded (tracker : Bytes) (infoHash peerId : Hash) (port : UInt16)
    (compact : Bool) (request : AnnounceRequestHttp)
    (made : AnnounceRequestHttp.new tracker infoHash peerId port compact = .ok request) :
    request.tracker = tracker ∧ request.urlInfoHash = urlEncode infoHash ∧
      request.urlPeerId = urlEncode peerId := by
  rw [AnnounceRequestHttp.new] at made
  split at made
  · obtain rfl := Except.ok.inj made
    exact ⟨rfl, rfl, rfl⟩
  · cases made

theorem parameters_plain (request : AnnounceRequestHttp) (stats : TorrentStats)
    (infoHash : 35 ∉ request.urlInfoHash) (peerId : 35 ∉ request.urlPeerId) :
    35 ∉ request.parameters stats := by
  have names : 35 ∉ fromStr "info_hash=" ∧ 35 ∉ fromStr "&peer_id=" ∧ 35 ∉ fromStr "&port=" ∧
      35 ∉ fromStr "&uploaded=" ∧ 35 ∉ fromStr "&downloaded=" ∧ 35 ∉ fromStr "&left=" ∧
      35 ∉ fromStr "&compact=" := by decide
  have mode : (35 : UInt8) ∉ [if request.compact then (49 : UInt8) else 48] := by
    cases request.compact with
    | true => decide
    | false => decide
  simp only [AnnounceRequestHttp.parameters, List.mem_append, not_or]
  exact ⟨⟨⟨⟨⟨⟨⟨⟨⟨⟨⟨⟨⟨names.1, infoHash⟩, names.2.1⟩, peerId⟩, names.2.2.1⟩, format_plain _⟩,
    names.2.2.2.1⟩, format_plain _⟩, names.2.2.2.2.1⟩, format_plain _⟩, names.2.2.2.2.2.1⟩,
    format_plain _⟩, names.2.2.2.2.2.2⟩, mode⟩

end Parameters

section Urls

variable (crate : HttpCrate)

def pathOf (uri : crate.Uri) : Bytes :=
  ((crate.intoParts uri).pathAndQuery.map crate.path).getD (fromStr "/")

def queryOf (uri : crate.Uri) : Option Bytes :=
  (crate.intoParts uri).pathAndQuery.bind crate.query

/-- The announce URL that belongs to a tracker's URL: its own query comes first. -/
structure Announces (uri : crate.Uri) (parameters : Bytes) (url : crate.Uri) : Prop where
  scheme : (crate.intoParts url).scheme = (crate.intoParts uri).scheme
  authority : (crate.intoParts url).authority = (crate.intoParts uri).authority
  path : pathOf crate url = pathOf crate uri
  query : queryOf crate url =
    match queryOf crate uri with
    | none => some parameters
    | some query => some (query ++ fromStr "&" ++ parameters)

variable (lawful : Lawful crate)

include lawful in
theorem path_of_plain (uri : crate.Uri) :
    pathOf crate uri ≠ [] ∧ 63 ∉ pathOf crate uri ∧ 35 ∉ pathOf crate uri := by
  rw [pathOf]
  cases (crate.intoParts uri).pathAndQuery with
  | none =>
      have slash : fromStr "/" ≠ [] ∧ 63 ∉ fromStr "/" ∧ 35 ∉ fromStr "/" := by decide
      exact slash
  | some pathAndQuery =>
      exact ⟨lawful.path_some pathAndQuery, lawful.path_plain pathAndQuery⟩

theorem build_url_calls (request : AnnounceRequestHttp) (stats : TorrentStats)
    (uri url : crate.Uri) (parsed : crate.parse request.tracker = some uri)
    (built : request.buildUrl crate stats = .ok url) :
    ∃ pathAndQuery, crate.tryFrom (pathOf crate uri ++
        (if (pathOf crate uri).contains 63 then fromStr "&" else fromStr "?") ++
        request.parameters stats) = some pathAndQuery ∧
      crate.fromParts { crate.intoParts uri with pathAndQuery := some pathAndQuery } =
        some url := by
  simp only [AnnounceRequestHttp.buildUrl, parsed] at built
  split at built
  · cases built
  · rename_i pathAndQuery joined
    split at built
    · cases built
    · rename_i made whole
      obtain rfl := Except.ok.inj built
      exact ⟨pathAndQuery, joined, whole⟩

include lawful in
/-- What is built: the parts of the tracker's URL, with the parameters as the query. -/
theorem build_url_parts (request : AnnounceRequestHttp) (stats : TorrentStats)
    (plain : 35 ∉ request.parameters stats) (uri url : crate.Uri)
    (parsed : crate.parse request.tracker = some uri)
    (built : request.buildUrl crate stats = .ok url) :
    (crate.intoParts url).scheme = (crate.intoParts uri).scheme ∧
      (crate.intoParts url).authority = (crate.intoParts uri).authority ∧
      pathOf crate url = pathOf crate uri ∧
      queryOf crate url = some (request.parameters stats) := by
  obtain ⟨some_path, unmarked, unsigned⟩ := path_of_plain crate lawful uri
  obtain ⟨pathAndQuery, joined, whole⟩ := build_url_calls crate request stats uri url parsed built
  have parts := lawful.preserved _ url whole
  -- The test never finds a question mark, so the delimiter is one.
  have text : pathOf crate uri ++
      (if (pathOf crate uri).contains 63 then fromStr "&" else fromStr "?") ++
      request.parameters stats = pathOf crate uri ++ 63 :: request.parameters stats := by
    rw [if_neg (by simpa using unmarked), List.append_assoc]
    rfl
  have signless : 35 ∉ pathOf crate uri ++ 63 :: request.parameters stats := by
    rw [List.mem_append, List.mem_cons, not_or, not_or]
    exact ⟨unsigned, by decide, plain⟩
  rw [text] at joined
  obtain ⟨path, query⟩ := lawful.split _ pathAndQuery signless joined
  rw [before_query_append _ _ unmarked, if_neg some_path] at path
  rw [behind_query_append _ _ unmarked] at query
  refine ⟨by rw [parts], by rw [parts], ?_, ?_⟩
  · rw [pathOf, parts]
    exact path
  · rw [queryOf, parts]
    exact query

theorem query_longer (query parameters : Bytes) :
    some parameters ≠ some (query ++ fromStr "&" ++ parameters) := by
  intro same
  have sizes := congrArg List.length (Option.some.inj same)
  have mark : (fromStr "&").length = 1 := rfl
  rw [List.length_append, List.length_append, mark] at sizes
  omega

include lawful in
/-- The URL that is built announces at the tracker's URL if and only if that URL has no
query of its own. -/
theorem build_url_announces_iff (tracker : Bytes) (infoHash peerId : Hash) (port : UInt16)
    (compact : Bool) (request : AnnounceRequestHttp)
    (made : AnnounceRequestHttp.new tracker infoHash peerId port compact = .ok request)
    (stats : TorrentStats) (uri url : crate.Uri) (parsed : crate.parse tracker = some uri)
    (built : request.buildUrl crate stats = .ok url) :
    Announces crate uri (request.parameters stats) url ↔ queryOf crate uri = none := by
  obtain ⟨same, first, second⟩ := request_encoded tracker infoHash peerId port compact request made
  have plain := parameters_plain request stats (by rw [first]; exact url_encode_plain infoHash)
    (by rw [second]; exact url_encode_plain peerId)
  obtain ⟨scheme, authority, path, query⟩ :=
    build_url_parts crate lawful request stats plain uri url (by rwa [same]) built
  constructor
  · intro announces
    have expected := announces.query
    rw [query] at expected
    cases own : queryOf crate uri with
    | none => rfl
    | some found =>
        rw [own] at expected
        exact absurd expected (query_longer found _)
  · intro none
    exact ⟨scheme, authority, path, by rw [query, none]⟩

end Urls

section Example

def plainCrate : HttpCrate where
  Uri := Parts Bytes Bytes Bytes
  Scheme := Bytes
  Authority := Bytes
  PathAndQuery := Bytes
  parse text :=
    if text.take 7 = fromStr "http://" then
      let rest := text.drop 7
      let authority := rest.takeWhile fun b => b != 47 && b != 63
      some ⟨some (fromStr "http"), some authority, some (rest.drop authority.length)⟩
    else none
  intoParts uri := uri
  fromParts parts := if parts.scheme.isSome = parts.authority.isSome then some parts else none
  tryFrom text := some text
  path text :=
    let front := text.takeWhile fun b => b != 63 && b != 35
    if front = [] then fromStr "/" else front
  query text := behindQuery (text.takeWhile fun b => b != 35)

theorem take_while_unsigned (text : Bytes) (unsigned : 35 ∉ text) :
    (text.takeWhile fun b => b != 63 && b != 35) = beforeQuery text ∧
      (text.takeWhile fun b => b != 35) = text := by
  induction text with
  | nil => exact ⟨rfl, rfl⟩
  | cons b rest ih =>
      rw [List.mem_cons, not_or] at unsigned
      obtain ⟨front, whole⟩ := ih unsigned.2
      have other : (b != 35) = true := bne_iff_ne.mpr (Ne.symm unsigned.1)
      rw [beforeQuery] at front ⊢
      simp only [List.takeWhile_cons, other, Bool.and_true, front, whole, if_true, and_true]

theorem plain_crate_lawful : Lawful plainCrate := by
  refine ⟨?_, ?_, ?_, ?_⟩
  · intro text
    simp only [plainCrate]
    split
    · decide
    · assumption
  · intro text
    simp only [plainCrate]
    split
    · exact ⟨by decide, by decide⟩
    · constructor
      · intro member
        have kept := List.mem_takeWhile_imp member
        revert kept
        decide
      · intro member
        have kept := List.mem_takeWhile_imp member
        revert kept
        decide
  · intro text pathAndQuery unsigned taken
    obtain rfl := Option.some.inj taken
    obtain ⟨front, whole⟩ := take_while_unsigned text unsigned
    simp only [plainCrate, front, whole, and_self]
  · intro parts uri made
    simp only [plainCrate] at made ⊢
    split at made
    · exact (Option.some.inj made).symm
    · cases made

def zeroes : Hash := Vector.replicate 20 0

def someRequest (tracker : Bytes) : AnnounceRequestHttp :=
  ⟨tracker, urlEncode zeroes, urlEncode zeroes, 6881, true⟩

def someStats : TorrentStats := ⟨0, 0, 5⟩

def onHost (pathAndQuery : Bytes) : Parts Bytes Bytes Bytes :=
  ⟨some (fromStr "http"), some (fromStr "t"), some pathAndQuery⟩

theorem plain_built (request : AnnounceRequestHttp) (stats : TorrentStats) (text path : Bytes)
    (parsed : plainCrate.parse request.tracker = some (onHost text))
    (front : plainCrate.path text = path) (unmarked : path.contains 63 = false) :
    request.buildUrl plainCrate stats =
      .ok (onHost (path ++ fromStr "?" ++ request.parameters stats)) := by
  have start : ((plainCrate.intoParts (onHost text)).pathAndQuery.map plainCrate.path).getD
      (fromStr "/") = path := front
  simp only [AnnounceRequestHttp.buildUrl, parsed, start, unmarked, Bool.false_eq_true, if_false]
  generalize path ++ fromStr "?" ++ request.parameters stats = whole
  rfl

def announceUrl (tracker : Bytes) : Parts Bytes Bytes Bytes :=
  onHost (fromStr "/a" ++ fromStr "?" ++ (someRequest tracker).parameters someStats)

theorem plain_url_announces :
    Announces plainCrate (onHost (fromStr "/a"))
        ((someRequest (fromStr "http://t/a")).parameters someStats)
        (announceUrl (fromStr "http://t/a")) ↔
      queryOf plainCrate (onHost (fromStr "/a")) = none :=
  build_url_announces_iff plainCrate plain_crate_lawful (fromStr "http://t/a") zeroes zeroes 6881
    true (someRequest (fromStr "http://t/a")) rfl someStats (onHost (fromStr "/a"))
    (announceUrl (fromStr "http://t/a")) rfl
    (plain_built _ someStats (fromStr "/a") (fromStr "/a") rfl rfl rfl)

/-- The passkey of this tracker is not sent. -/
theorem passkey_lost :
    plainCrate.parse (fromStr "http://t/a?k=1") = some (onHost (fromStr "/a?k=1")) ∧
      (someRequest (fromStr "http://t/a?k=1")).buildUrl plainCrate someStats =
        .ok (announceUrl (fromStr "http://t/a?k=1")) ∧
      ¬ Announces plainCrate (onHost (fromStr "/a?k=1"))
        ((someRequest (fromStr "http://t/a?k=1")).parameters someStats)
        (announceUrl (fromStr "http://t/a?k=1")) := by
  have built := plain_built (someRequest (fromStr "http://t/a?k=1")) someStats
    (fromStr "/a?k=1") (fromStr "/a") rfl rfl rfl
  have plain := parameters_plain (someRequest (fromStr "http://t/a?k=1")) someStats
    (url_encode_plain zeroes) (url_encode_plain zeroes)
  obtain ⟨-, -, -, sent⟩ := build_url_parts plainCrate plain_crate_lawful _ someStats plain
    (onHost (fromStr "/a?k=1")) _ rfl built
  refine ⟨rfl, built, fun announces => ?_⟩
  have own : queryOf plainCrate (onHost (fromStr "/a?k=1")) = some (fromStr "k=1") := rfl
  have query := announces.query
  rw [own, announceUrl, sent] at query
  exact query_longer _ _ query

end Example

end MotteSeed.TrackerUrl
