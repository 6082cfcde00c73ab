import MotteSeed.UdpTracker
import MotteSeed.HttpTracker
import MotteSeed.Toolkit.Refresh

/-! Both trackers as caches of their last response, renewed when its interval has
passed. The UDP client is one in every call. The HTTP client sets the time of the
announce before it decodes the answer, so it is one as long as answers decode. -/
namespace MotteSeed.TrackerPolling
open Toolkit Toolkit.Refresh Toolkit.Runs PeerWire TorrentMeta PieceStore Tracker UdpTracker
open HttpTracker

/-- More whole seconds have passed than the interval of the response. -/
def intervalPassed {Response : Type} (interval : Response → Nat) : Staleness Response where
  stale := fun response age => asSecs age > interval response
  grows := by
    intro response young old order passed
    have more : asSecs young ≤ asSecs old := Nat.div_le_div_right order
    simp only [decide_eq_true_eq] at passed ⊢
    omega

section Udp

def udpInterval : Staleness AnnounceResponseUdp :=
  intervalPassed fun response => response.interval.toNat

def udpClient :
    Client TrackerUdp UdpTracker.Poll AnnounceResponseUdp TrackerError (List PeerIp) where
  call tracker poll :=
    ((tracker.getPeers poll).1, !(tracker.getPeers poll).2.1.isEmpty, (tracker.getPeers poll).2.2)
  cache tracker := ⟨tracker.announceResponse, tracker.lastAnnounce⟩
  answer := AnnounceResponseUdp.peers
  calledAt := UdpTracker.Poll.checkedAt
  renewedAt := UdpTracker.Poll.announcedAt

theorem connection_id_kept (tracker : TrackerUdp) (poll : UdpTracker.Poll) :
    (tracker.getConnectionId poll).1.announceResponse = tracker.announceResponse ∧
      (tracker.getConnectionId poll).1.lastAnnounce = tracker.lastAnnounce ∧
      ∀ reason, (tracker.getConnectionId poll).2.2 = .error reason →
        (tracker.getConnectionId poll).2.1.isEmpty = false := by
  rcases connection_id_cases tracker poll with ⟨-, ⟨id, same⟩ | ⟨reason, same⟩⟩ | ⟨-, same⟩
  · rw [same]
    exact ⟨rfl, rfl, fun _ _ => rfl⟩
  · rw [same]
    exact ⟨rfl, rfl, fun _ _ => rfl⟩
  · rw [same]
    exact ⟨rfl, rfl, fun reason failed => by cases failed⟩

/-- What an announce leaves behind: a failure nothing, a success only its time. -/
theorem announce_kept (tracker : TrackerUdp) (poll : UdpTracker.Poll) :
    (tracker.announce poll).2.1.isEmpty = false ∧
      (tracker.announce poll).1.announceResponse = tracker.announceResponse ∧
      (tracker.announce poll).1.lastAnnounce =
        match (tracker.announce poll).2.2 with
        | .ok _ => poll.announcedAt
        | .error _ => tracker.lastAnnounce := by
  obtain ⟨response, time, contacted⟩ := connection_id_kept tracker poll
  rcases announce_cases tracker poll with ⟨reason, failed, same⟩ | ⟨reason, same⟩ | ⟨answer, same⟩
  · rw [same]
    exact ⟨contacted reason failed, response, time⟩
  · rw [same]
    exact ⟨by simp, response, time⟩
  · rw [same]
    exact ⟨by simp, response, rfl⟩

theorem udp_refines (tracker : TrackerUdp) (poll : UdpTracker.Poll) :
    udpClient.Refines udpInterval tracker poll := by
  obtain ⟨contacted, response, time⟩ := announce_kept tracker poll
  refine ⟨(tracker.announce poll).2.2, _, rfl, ?_⟩
  rcases get_peers_cases tracker poll with
    ⟨due, ⟨answer, result, same⟩ | ⟨reason, result, same⟩⟩ | ⟨early, same⟩
  · rw [use_due udpInterval (udpClient.cache tracker) (udpClient.calledAt poll) _ _ due]
    rw [result] at time ⊢
    simp only [udpClient, same, contacted]
    exact ⟨congrArg (Cache.mk answer) time, rfl, rfl⟩
  · rw [use_due udpInterval (udpClient.cache tracker) (udpClient.calledAt poll) _ _ due]
    rw [result] at time ⊢
    simp only [udpClient, same, contacted]
    exact ⟨congrArg₂ Cache.mk response time, rfl, rfl⟩
  · rw [use_fresh udpInterval (udpClient.cache tracker) (udpClient.calledAt poll) _ _ early]
    simp only [udpClient, same]
    exact ⟨trivial, rfl, rfl⟩

end Udp

section Http

def httpInterval : Staleness AnnounceResponseHttp := intervalPassed AnnounceResponseHttp.interval

def httpClient :
    Client TrackerHttp HttpTracker.Poll AnnounceResponseHttp TrackerError (List PeerIp) where
  call tracker poll :=
    ((tracker.getPeers poll).1, !(tracker.getPeers poll).2.1.isEmpty, (tracker.getPeers poll).2.2)
  cache tracker := ⟨tracker.response, tracker.lastAnnounce⟩
  answer := AnnounceResponseHttp.peers
  calledAt := HttpTracker.Poll.checkedAt
  renewedAt := HttpTracker.Poll.announcedAt

def Undecodable (poll : HttpTracker.Poll) : Prop :=
  ∃ answer reason, poll.announced = .ok answer ∧
    AnnounceResponseHttp.decode answer = .error reason

def decoded (poll : HttpTracker.Poll) : Except TrackerError AnnounceResponseHttp :=
  match poll.announced with
  | .error reason => .error reason
  | .ok answer => (AnnounceResponseHttp.decode answer).mapError .bencodeError

theorem http_refines (tracker : TrackerHttp) (poll : HttpTracker.Poll)
    (fine : ¬ (tracker.due poll = true ∧ Undecodable poll)) :
    httpClient.Refines httpInterval tracker poll := by
  refine ⟨decoded poll, _, rfl, ?_⟩
  by_cases due : tracker.due poll = true
  · rw [use_due httpInterval (httpClient.cache tracker) (httpClient.calledAt poll) _ _ due]
    simp only [httpClient, TrackerHttp.getPeers, TrackerHttp.announce, decoded, if_pos due]
    cases announced : poll.announced with
    | error reason => exact ⟨rfl, rfl, rfl⟩
    | ok answer =>
        cases read : AnnounceResponseHttp.decode answer with
        | error reason => exact absurd ⟨due, answer, reason, announced, read⟩ fine
        | ok response => simp [read, Except.mapError, Except.map]
  · rw [use_fresh httpInterval (httpClient.cache tracker) (httpClient.calledAt poll) _ _ due]
    simp only [httpClient, TrackerHttp.getPeers, if_neg due]
    exact ⟨trivial, rfl, rfl⟩

theorem undecodable_disobeys (watched : Watched TrackerHttp) (poll : HttpTracker.Poll)
    (timed : httpClient.InTime watched poll) (due : watched.state.due poll = true)
    (bad : Undecodable poll) : ¬ httpClient.Obeys httpInterval watched poll := by
  obtain ⟨answer, reason, announced, read⟩ := bad
  have polled : watched.state.getPeers poll =
      ({ watched.state with lastAnnounce := poll.announcedAt }, [.announce],
        .error (.bencodeError reason)) := by
    simp only [TrackerHttp.getPeers, if_pos due, TrackerHttp.announce, announced, read]
  rintro ⟨kept, -⟩
  have same := kept (.bencodeError reason) (by simp only [httpClient, polled])
  simp only [httpClient, polled, Cache.mk.injEq, true_and] at same
  -- A due call comes later than the stored announce.
  have later : watched.state.lastAnnounce < poll.checkedAt := by
    by_contra early
    have none : elapsed poll.checkedAt watched.state.lastAnnounce = 0 :=
      Nat.sub_eq_zero_of_le (Nat.le_of_not_lt early)
    simp [TrackerHttp.due, none, asSecs] at due
  have order : poll.checkedAt ≤ poll.announcedAt := timed.2
  omega

end Http

def settledHttp (tracker : TrackerHttp) (now : Nat) : Watched TrackerHttp :=
  ⟨tracker, true, tracker.lastAnnounce, now⟩

def settledUdp (tracker : TrackerUdp) (now : Nat) : Watched TrackerUdp :=
  ⟨tracker, true, tracker.lastAnnounce, now⟩

/-- In every sequence of calls the UDP client leaves its state alone when a call fails
and is silent only behind a successful announce; the HTTP client does so if and only if
no call that is due gets an answer it cannot decode. -/
theorem polls_obey_iff (udp : TrackerUdp) (udpPolls : List UdpTracker.Poll) (http : TrackerHttp)
    (httpPolls : List HttpTracker.Poll) (now : Nat) :
    Always udpClient.watch (settledUdp udp now) udpPolls (udpClient.Obeys udpInterval) ∧
    (Always httpClient.watch (settledHttp http now) httpPolls (httpClient.Obeys httpInterval) ↔
      Always httpClient.watch (settledHttp http now) httpPolls fun watched poll =>
        ¬ (watched.state.due poll = true ∧ Undecodable poll)) := by
  refine ⟨?_, ?_, ?_⟩
  · apply always_obeys udpClient udpInterval _ udpPolls (Or.inl ⟨rfl, rfl⟩)
    exact fun _ poll _ watched _ _ _ _ => udp_refines watched.state poll
  · intro obeys past poll later watched log split ran enabled
    rintro ⟨due, bad⟩
    exact undecodable_disobeys watched poll ((watch_enabled_iff _ _ _).mp enabled) due bad
      (obeys past poll later watched log split ran enabled)
  · intro decodes
    apply always_obeys httpClient httpInterval _ httpPolls (Or.inl ⟨rfl, rfl⟩)
    intro past poll later watched log split ran enabled
    exact http_refines watched.state poll
      (decodes past poll later watched log split ran enabled)

section Failure

def idleTracker : TrackerHttp :=
  { request := ⟨[], [], [], 6881, true⟩, lastAnnounce := 0, response := ⟨1800, []⟩ }

def failureAnswer : Bencode := .dict [(fromStr "failure reason", .byteString (fromStr "busy"))]

def failingPoll (time : Nat) : HttpTracker.Poll :=
  ⟨time * second, .ok failureAnswer, time * second⟩

/-- The tracker answers with a failure: the call fails and the time moves on, and the
next call returns the old peers without asking again. -/
theorem failure_answer_silences :
    ¬ Always httpClient.watch (settledHttp idleTracker 0) [failingPoll 1801]
        (httpClient.Obeys httpInterval) ∧
      ((idleTracker.getPeers (failingPoll 1801)).1.getPeers (failingPoll 1802)).2 =
        ([], .ok []) := by
  refine ⟨fun always => ?_, rfl⟩
  have timed : httpClient.InTime (settledHttp idleTracker 0) (failingPoll 1801) :=
    ⟨Nat.zero_le _, Nat.le_refl _⟩
  exact undecodable_disobeys _ _ timed rfl ⟨failureAnswer, _, rfl, rfl⟩
    (always [] (failingPoll 1801) [] _ [] rfl rfl ((watch_enabled_iff _ _ _).mpr timed))

end Failure

end MotteSeed.TrackerPolling
