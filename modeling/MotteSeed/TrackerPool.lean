import MotteSeed.UdpTracker
import MotteSeed.HttpTracker
import MotteSeed.Toolkit.Runs

/-! `tracker_factory.rs` and `tracker_manager.rs`: the trackers of a torrent, polled in
rounds, and the pool of the peers they have named. No tracker notices the others, and the
pool is what each of them alone would have answered. -/
namespace MotteSeed.TrackerPool
open Toolkit Toolkit.HashTable Toolkit.Runs PeerWire TorrentMeta PieceStore Tracker UdpTracker
  HttpTracker

section Factory

inductive TrackerType where
  | http
  | udp
  deriving DecidableEq

def determineType (url : Bytes) : TrackerType :=
  if (fromStr "udp://").isPrefixOf url then .udp else .http

inductive AnyTracker where
  | http (tracker : TrackerHttp)
  | udp (tracker : TrackerUdp)

structure Creation where
  httpAnnounced : Except TrackerError Bencode
  resolved : Except TrackerError Unit
  bound : Except TrackerError Unit
  key : UInt32
  connected : Except TrackerError UInt64
  udpAnnounced : Except TrackerError AnnounceResponseUdp
  connectionTime : Nat
  lastAnnounce : Nat

def createTracker (announceUrl : Bytes) (infoHash peerId : Hash) (port : UInt16)
    (creation : Creation) : Except TrackerError AnyTracker := do
  match determineType announceUrl with
  | .http =>
      let tracker ← TrackerHttp.new announceUrl infoHash peerId port creation.httpAnnounced
        creation.lastAnnounce
      return .http tracker
  | .udp =>
      if announceUrl.toByteArray.validateUTF8 then
        creation.resolved
        creation.bound
        let tracker ← TrackerUdp.new (.new infoHash peerId port creation.key) creation.connected
          creation.udpAnnounced creation.connectionTime creation.lastAnnounce
        return .udp tracker
      else throw .utf8Error

structure Meeting where
  http : HttpTracker.Poll
  udp : UdpTracker.Poll

def AnyTracker.getPeers (meeting : Meeting) :
    AnyTracker → AnyTracker × List Contact × Except TrackerError (List PeerIp)
  | .http tracker =>
      let asked := tracker.getPeers meeting.http
      (.http asked.1, asked.2.1, asked.2.2)
  | .udp tracker =>
      let asked := tracker.getPeers meeting.udp
      (.udp asked.1, asked.2.1, asked.2.2)

end Factory

abbrev PeerPool := HashMap PeerIp Unit

structure TrackerManager where
  trackers : List AnyTracker
  stats : TorrentStats
  peerPool : PeerPool
  infoHash : Hash
  peerId : Hash
  port : UInt16

section Manager

def createAll (infoHash peerId : Hash) (port : UInt16) (creations : Nat → Creation) :
    Nat → List Bytes → List AnyTracker
  | _, [] => []
  | first, url :: rest =>
      match createTracker url infoHash peerId port (creations first) with
      | .ok tracker => tracker :: createAll infoHash peerId port creations (first + 1) rest
      | .error _ => createAll infoHash peerId port creations (first + 1) rest

def TrackerManager.new (announceUrl : Bytes) (announceUrlList : Option (List (List Bytes)))
    (infoHash peerId : Hash) (totalSize : UInt64) (port : UInt16)
    (creations : Nat → Creation) : TrackerManager :=
  let urls := announceUrl :: (announceUrlList.getD []).flatten
  { trackers := createAll infoHash peerId port creations 0 urls
    stats := { downloaded := 0, uploaded := 0, left := totalSize }
    peerPool := ∅, infoHash, peerId, port }

def insertPeers (pool : PeerPool) (peers : List PeerIp) : PeerPool :=
  peers.foldl (fun pool peer => pool.insert peer ()) pool

def collect (pool : PeerPool) : Except TrackerError (List PeerIp) → PeerPool
  | .ok peers => insertPeers pool peers
  | .error _ => pool

def pollFrom (meetings : Nat → Meeting) : Nat → List AnyTracker → PeerPool →
    List AnyTracker × PeerPool
  | _, [], pool => ([], pool)
  | first, tracker :: rest, pool =>
      let asked := tracker.getPeers (meetings first)
      let later := pollFrom meetings (first + 1) rest (collect pool asked.2.2)
      (asked.1 :: later.1, later.2)

def TrackerManager.pollAllTrackers (manager : TrackerManager) (meetings : Nat → Meeting) :
    TrackerManager :=
  let polled := pollFrom meetings 0 manager.trackers manager.peerPool
  { manager with trackers := polled.1, peerPool := polled.2 }

def TrackerManager.getAllPeersVec (order : IterOrder (Entry PeerIp Unit))
    (manager : TrackerManager) : List PeerIp :=
  (order.arrange manager.peerPool.entries).map Sigma.fst

def TrackerManager.getAllPeersHash (manager : TrackerManager) : PeerPool := manager.peerPool

end Manager

def rounds : Machine TrackerManager (Nat → Meeting) Unit :=
  ⟨fun manager meetings => some (manager.pollAllTrackers meetings, [])⟩

def alone : Machine AnyTracker Meeting (Except TrackerError (List PeerIp)) :=
  ⟨fun tracker meeting => some ((tracker.getPeers meeting).1, [(tracker.getPeers meeting).2.2])⟩

section Pool

theorem insert_peers_iff (pool : PeerPool) (peers : List PeerIp) (peer : PeerIp) :
    peer ∈ insertPeers pool peers ↔ peer ∈ pool ∨ peer ∈ peers := by
  induction peers generalizing pool with
  | nil => simp [insertPeers]
  | cons first rest ih =>
      rw [insertPeers, List.foldl_cons, ← insertPeers, ih, AList.mem_insert, List.mem_cons]
      tauto

theorem collect_iff (pool : PeerPool) (answer : Except TrackerError (List PeerIp))
    (peer : PeerIp) :
    peer ∈ collect pool answer ↔ peer ∈ pool ∨ ∃ peers, answer = .ok peers ∧ peer ∈ peers := by
  cases answer with
  | error reason => simp [collect]
  | ok peers => simp [collect, insert_peers_iff]

variable (meetings : Nat → Meeting)

theorem poll_from_trackers (first : Nat) (trackers : List AnyTracker) (pool : PeerPool)
    (i : Nat) : (pollFrom meetings first trackers pool).1[i]? =
      trackers[i]?.map fun tracker => (tracker.getPeers (meetings (first + i))).1 := by
  induction trackers generalizing first pool i with
  | nil => simp [pollFrom]
  | cons tracker rest ih =>
      cases i with
      | zero => simp [pollFrom]
      | succ i =>
          simp only [pollFrom, List.getElem?_cons_succ]
          rw [ih, Nat.add_right_comm, Nat.add_assoc]

theorem poll_from_pool (first : Nat) (trackers : List AnyTracker) (pool : PeerPool)
    (peer : PeerIp) : peer ∈ (pollFrom meetings first trackers pool).2 ↔ peer ∈ pool ∨
      ∃ (i : Nat) (tracker : AnyTracker) (peers : List PeerIp), trackers[i]? = some tracker ∧
        (tracker.getPeers (meetings (first + i))).2.2 = .ok peers ∧ peer ∈ peers := by
  induction trackers generalizing first pool with
  | nil => simp [pollFrom]
  | cons tracker rest ih =>
      rw [pollFrom, ih, collect_iff, or_assoc]
      refine or_congr_right ⟨?_, ?_⟩
      · rintro (⟨peers, answered, named⟩ | ⟨i, other, peers, there, answered, named⟩)
        · exact ⟨0, tracker, peers, rfl, answered, named⟩
        · refine ⟨i + 1, other, peers, there, ?_, named⟩
          rwa [Nat.add_comm i, ← Nat.add_assoc]
      · rintro ⟨i, other, peers, there, answered, named⟩
        cases i with
        | zero =>
            obtain rfl : tracker = other := Option.some.inj there
            exact Or.inl ⟨peers, answered, named⟩
        | succ i =>
            refine Or.inr ⟨i, other, peers, there, ?_, named⟩
            rwa [Nat.add_assoc, Nat.add_comm 1]

end Pool

/-- What the tracker at this place answers when it alone is called. -/
def AnswersAlone (start : TrackerManager) (past : List (Nat → Meeting)) (i : Nat)
    (last : AnyTracker) (answers : List (Except TrackerError (List PeerIp))) : Prop :=
  ∃ tracker, start.trackers[i]? = some tracker ∧
    run alone tracker (past.map fun meetings => meetings i) = some (last, answers)

theorem answers_alone_snoc (start : TrackerManager) (past : List (Nat → Meeting))
    (meetings : Nat → Meeting) (i : Nat) (last : AnyTracker)
    (answers : List (Except TrackerError (List PeerIp))) :
    AnswersAlone start (past ++ [meetings]) i last answers ↔
      ∃ middle before, AnswersAlone start past i middle before ∧
        last = (middle.getPeers (meetings i)).1 ∧
        answers = before ++ [(middle.getPeers (meetings i)).2.2] := by
  simp only [AnswersAlone, List.map_append, List.map_singleton, run_snoc_iff]
  constructor
  · rintro ⟨tracker, there, middle, before, emitted, ran, stepped, rfl⟩
    obtain ⟨rfl, rfl⟩ := Prod.mk.inj (Option.some.inj stepped)
    exact ⟨middle, before, ⟨tracker, there, ran⟩, rfl, rfl⟩
  · rintro ⟨middle, before, ⟨tracker, there, ran⟩, rfl, rfl⟩
    exact ⟨tracker, there, middle, before, _, ran, rfl, rfl⟩

structure Exact (start : TrackerManager) (past : List (Nat → Meeting))
    (manager : TrackerManager) : Prop where
  trackers : ∀ i last, manager.trackers[i]? = some last ↔
    ∃ answers, AnswersAlone start past i last answers
  pool : ∀ peer, peer ∈ manager.peerPool ↔ peer ∈ start.peerPool ∨
    ∃ i last answers peers, AnswersAlone start past i last answers ∧ .ok peers ∈ answers ∧
      peer ∈ peers

theorem exact_start (start : TrackerManager) : Exact start [] start := by
  constructor
  · intro i last
    simp [AnswersAlone]
  · intro peer
    simp [AnswersAlone]

theorem exact_round (start : TrackerManager) (past : List (Nat → Meeting))
    (meetings : Nat → Meeting) (manager : TrackerManager) (exact : Exact start past manager) :
    Exact start (past ++ [meetings]) (manager.pollAllTrackers meetings) := by
  constructor
  · intro i last
    simp only [TrackerManager.pollAllTrackers, poll_from_trackers, Option.map_eq_some_iff,
      answers_alone_snoc, Nat.zero_add]
    constructor
    · rintro ⟨middle, there, rfl⟩
      obtain ⟨before, answered⟩ := (exact.trackers i middle).mp there
      exact ⟨_, middle, before, answered, rfl, rfl⟩
    · rintro ⟨_, middle, before, answered, rfl, rfl⟩
      exact ⟨middle, (exact.trackers i middle).mpr ⟨before, answered⟩, rfl⟩
  · intro peer
    simp only [TrackerManager.pollAllTrackers, poll_from_pool, exact.pool, Nat.zero_add,
      answers_alone_snoc]
    constructor
    · rintro ((old | ⟨i, middle, before, peers, answered, said, named⟩) |
        ⟨i, middle, peers, there, said, named⟩)
      · exact Or.inl old
      · exact Or.inr ⟨i, _, _, peers, ⟨middle, before, answered, rfl, rfl⟩,
          List.mem_append_left _ said, named⟩
      · obtain ⟨before, answered⟩ := (exact.trackers i middle).mp there
        refine Or.inr ⟨i, _, _, peers, ⟨middle, before, answered, rfl, rfl⟩, ?_, named⟩
        rw [said]
        exact List.mem_append_right _ List.mem_cons_self
    · rintro (old | ⟨i, _, _, peers, ⟨middle, before, answered, rfl, rfl⟩, said, named⟩)
      · exact Or.inl (Or.inl old)
      · rcases List.mem_append.mp said with earlier | now
        · exact Or.inl (Or.inr ⟨i, middle, before, peers, answered, earlier, named⟩)
        · exact Or.inr ⟨i, middle, peers, (exact.trackers i middle).mpr ⟨before, answered⟩,
            (List.mem_singleton.mp now).symm, named⟩

theorem peers_vec_iff (order : IterOrder (Entry PeerIp Unit)) (manager : TrackerManager) :
    (manager.getAllPeersVec order).Nodup ∧
      ∀ peer, peer ∈ manager.getAllPeersVec order ↔ peer ∈ manager.getAllPeersHash := by
  have same := (order.perm manager.peerPool.entries).map Sigma.fst
  constructor
  · exact same.nodup_iff.mpr manager.peerPool.nodupKeys
  · intro peer
    exact same.mem_iff.trans Iff.rfl

/-- After any rounds of polling each tracker stands where it would stand if it had been
polled alone, and the list of peers, in whatever order it comes, has each address once that
some tracker alone has answered with, and no other. -/
theorem pool_as_polled_alone (announceUrl : Bytes) (announceUrlList : Option (List (List Bytes)))
    (infoHash peerId : Hash) (totalSize : UInt64) (port : UInt16) (creations : Nat → Creation)
    (past : List (Nat → Meeting)) (order : IterOrder (Entry PeerIp Unit)) :
    ∃ finish, run rounds (.new announceUrl announceUrlList infoHash peerId totalSize port
        creations) past = some (finish, []) ∧
      (∀ i last, finish.trackers[i]? = some last ↔ ∃ answers, AnswersAlone
        (.new announceUrl announceUrlList infoHash peerId totalSize port creations) past i last
        answers) ∧
      (finish.getAllPeersVec order).Nodup ∧
      ∀ peer, peer ∈ finish.getAllPeersVec order ↔ ∃ i last answers peers, AnswersAlone
        (.new announceUrl announceUrlList infoHash peerId totalSize port creations) past i last
        answers ∧ .ok peers ∈ answers ∧ peer ∈ peers := by
  generalize start : TrackerManager.new announceUrl announceUrlList infoHash peerId totalSize port
    creations = manager
  have empty : ∀ peer, peer ∉ manager.peerPool := by
    intro peer
    rw [← start]
    exact AList.notMem_empty peer
  obtain ⟨finish, ran, exact⟩ :
      ∃ finish, run rounds manager past = some (finish, []) ∧ Exact manager past finish := by
    induction past using List.reverseRecOn with
    | nil => exact ⟨manager, rfl, exact_start manager⟩
    | append_singleton past meetings ih =>
        obtain ⟨middle, ran, exact⟩ := ih
        exact ⟨middle.pollAllTrackers meetings,
          (run_snoc_iff rounds manager _ past meetings []).mpr ⟨middle, [], [], ran, rfl, rfl⟩,
          exact_round manager past meetings middle exact⟩
  obtain ⟨once, members⟩ := peers_vec_iff order finish
  refine ⟨finish, ran, exact.trackers, once, fun peer => ?_⟩
  rw [members, TrackerManager.getAllPeersHash, exact.pool]
  exact or_iff_right (empty peer)

end MotteSeed.TrackerPool
