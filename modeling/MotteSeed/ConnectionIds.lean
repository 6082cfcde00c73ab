import MotteSeed.UdpTracker

/-! The age of the connection id. The client compares with the time at which it was
built, which a refresh leaves alone; an observer remembers when the id in use was
received. The clock never goes back, and an exchange may take any time. -/
namespace MotteSeed.ConnectionIds
open Toolkit Toolkit.Runs PeerWire TorrentMeta PieceStore Tracker UdpTracker

section Watching

structure Watched where
  tracker : TrackerUdp
  receivedAt : Nat
  refreshed : Bool
  now : Nat

def InTime (watched : Watched) (poll : Poll) : Prop :=
  watched.now ≤ poll.checkedAt ∧ poll.checkedAt ≤ poll.askedAt ∧
    poll.askedAt ≤ poll.receivedAt ∧ poll.receivedAt ≤ poll.announcedAt

instance (watched : Watched) (poll : Poll) : Decidable (InTime watched poll) :=
  inferInstanceAs (Decidable (_ ∧ _))

def performs (tracker : TrackerUdp) (poll : Poll) : Bool :=
  (tracker.getConnectionId poll).2.1.contains .connect

def renews (tracker : TrackerUdp) (poll : Poll) : Bool :=
  (tracker.getPeers poll).2.1.contains .connect && poll.connected.isOk

def observe (watched : Watched) (poll : Poll) : Watched :=
  { tracker := (watched.tracker.getPeers poll).1
    receivedAt := if renews watched.tracker poll then poll.receivedAt else watched.receivedAt
    refreshed := renews watched.tracker poll || watched.refreshed
    now := poll.announcedAt }

def watch : Machine Watched Poll Contact where
  step watched poll :=
    if InTime watched poll then
      some (observe watched poll, (watched.tracker.getPeers poll).2.1)
    else none

def returnedAge (watched : Watched) (poll : Poll) : Nat :=
  if performs watched.tracker poll then 0 else poll.askedAt - watched.receivedAt

/-- A lookup connects exactly if the id has expired, and returns no expired one. -/
def Exact (watched : Watched) (poll : Poll) : Prop :=
  watched.tracker.due poll = true →
    (performs watched.tracker poll = true ↔
      watched.receivedAt + connectionExpiry ≤ poll.askedAt) ∧
    ∀ connectionId, (watched.tracker.getConnectionId poll).2.2 = .ok connectionId →
      returnedAge watched poll < connectionExpiry

/-- Before the first refresh, a lookup behind the expiry of the id comes behind the
expiry counted from the construction; later ones come behind that of the new id. -/
def Timely (watched : Watched) (poll : Poll) : Prop :=
  watched.tracker.due poll = true →
    if watched.refreshed then watched.receivedAt + connectionExpiry ≤ poll.askedAt
    else poll.askedAt < watched.receivedAt + connectionExpiry ∨
      watched.tracker.connectionTime + connectionExpiry ≤ poll.askedAt

end Watching

section Lookups

variable (tracker : TrackerUdp) (poll : Poll)

theorem expired_iff : elapsed poll.askedAt tracker.connectionTime ≥ connectionExpiry ↔
    tracker.connectionTime + connectionExpiry ≤ poll.askedAt := by
  have some_time : 0 < connectionExpiry := by decide
  rw [elapsed]
  omega

theorem performs_iff : performs tracker poll = true ↔
    tracker.connectionTime + connectionExpiry ≤ poll.askedAt := by
  rw [← expired_iff, performs]
  rcases connection_id_cases tracker poll with
    ⟨expired, ⟨id, same⟩ | ⟨reason, same⟩⟩ | ⟨fresh, same⟩
  · rw [same]
    exact iff_of_true rfl expired
  · rw [same]
    exact iff_of_true rfl expired
  · rw [same]
    exact iff_of_false Bool.false_ne_true (Nat.not_le_of_lt fresh)

theorem connection_id_time : (tracker.getConnectionId poll).1.connectionTime =
    tracker.connectionTime := by
  rcases connection_id_cases tracker poll with ⟨-, ⟨id, same⟩ | ⟨reason, same⟩⟩ | ⟨-, same⟩
  all_goals rw [same]

theorem announce_time : (tracker.announce poll).1.connectionTime = tracker.connectionTime := by
  rw [← connection_id_time tracker poll]
  rcases announce_cases tracker poll with ⟨reason, -, same⟩ | ⟨reason, same⟩ | ⟨response, same⟩
  all_goals rw [same]

theorem get_peers_time : (tracker.getPeers poll).1.connectionTime = tracker.connectionTime := by
  rcases get_peers_cases tracker poll with
    ⟨-, ⟨response, -, same⟩ | ⟨reason, -, same⟩⟩ | ⟨-, same⟩
  · rw [same]
    exact announce_time tracker poll
  · rw [same]
    exact announce_time tracker poll
  · rw [same]

theorem announce_connects : (tracker.announce poll).2.1.contains .connect =
    performs tracker poll := by
  have apart : ([.announce] : List Contact).contains .connect = false := rfl
  rw [performs]
  rcases announce_cases tracker poll with ⟨reason, -, same⟩ | ⟨reason, same⟩ | ⟨response, same⟩
  · rw [same]
  · rw [same, List.contains_append, apart, Bool.or_false]
  · rw [same, List.contains_append, apart, Bool.or_false]

theorem renews_iff : renews tracker poll = true ↔
    tracker.due poll = true ∧ performs tracker poll = true ∧ poll.connected.isOk = true := by
  rw [renews, Bool.and_eq_true, ← and_assoc]
  apply and_congr_left
  intro _
  rcases get_peers_cases tracker poll with
    ⟨due, ⟨response, -, same⟩ | ⟨reason, -, same⟩⟩ | ⟨early, same⟩
  · rw [same, announce_connects]
    exact (and_iff_right due).symm
  · rw [same, announce_connects]
    exact (and_iff_right due).symm
  · rw [same]
    exact iff_of_false Bool.false_ne_true (fun both => early both.1)

end Lookups

section Runs

structure Known (connectionTime firstReceived : Nat) (watched : Watched) : Prop where
  fixed : watched.tracker.connectionTime = connectionTime
  past : watched.receivedAt ≤ watched.now
  first : watched.refreshed = false → watched.receivedAt = firstReceived
  later : watched.refreshed = true → connectionTime + connectionExpiry ≤ watched.receivedAt

theorem watch_step_iff (watched next : Watched) (poll : Poll) (contacts : List Contact) :
    watch.step watched poll = some (next, contacts) ↔
      InTime watched poll ∧ observe watched poll = next ∧
        (watched.tracker.getPeers poll).2.1 = contacts := by
  simp only [watch, Option.ite_none_right_eq_some, Option.some.injEq, Prod.mk.injEq]

variable (connectionTime firstReceived : Nat)

theorem known_step (watched : Watched) (poll : Poll) (known : Known connectionTime firstReceived
    watched) (timed : InTime watched poll) :
    Known connectionTime firstReceived (observe watched poll) := by
  obtain ⟨checked, asked, received, announced⟩ := timed
  have past := known.past
  refine ⟨(get_peers_time watched.tracker poll).trans known.fixed, ?_, ?_, ?_⟩
  · simp only [observe]
    split
    · exact announced
    · omega
  · intro none
    simp only [observe, Bool.or_eq_false_iff] at none
    simp only [observe, none.1, Bool.false_eq_true, if_false]
    exact known.first none.2
  · intro some_refresh
    by_cases renewed : renews watched.tracker poll = true
    · have expired := (performs_iff watched.tracker poll).mp
        ((renews_iff watched.tracker poll).mp renewed).2.1
      rw [known.fixed] at expired
      simp only [observe, renewed, if_true]
      omega
    · have before : watched.refreshed = true := by
        simpa only [observe, Bool.eq_false_iff.mpr renewed, Bool.false_or] using some_refresh
      simp only [observe, renewed, Bool.false_eq_true, if_false]
      exact known.later before

/-- The lookup connects from the expiry of the construction on, so it is exact as long
as the id in use has expired at the same times. -/
theorem exact_iff_agree (watched : Watched) (poll : Poll)
    (known : Known connectionTime firstReceived watched) :
    Exact watched poll ↔ (watched.tracker.due poll = true →
      (connectionTime + connectionExpiry ≤ poll.askedAt ↔
        watched.receivedAt + connectionExpiry ≤ poll.askedAt)) := by
  apply imp_congr_right
  intro due
  rw [performs_iff, known.fixed]
  apply and_iff_left_of_imp
  intro agree connectionId _
  have some_time : 0 < connectionExpiry := by decide
  rw [returnedAge]
  by_cases connects : performs watched.tracker poll = true
  · rw [if_pos connects]
    exact some_time
  · rw [if_neg connects]
    rw [performs_iff, known.fixed] at connects
    omega

theorem exact_iff_timely (order : firstReceived ≤ connectionTime) (watched : Watched)
    (poll : Poll) (known : Known connectionTime firstReceived watched)
    (timed : InTime watched poll) : Exact watched poll ↔ Timely watched poll := by
  obtain ⟨checked, asked, -, -⟩ := timed
  have past := known.past
  rw [exact_iff_agree connectionTime firstReceived watched poll known, Timely]
  apply imp_congr_right
  intro due
  cases kind : watched.refreshed with
  | true =>
      -- An id of a refresh expires behind the construction's.
      have later := known.later kind
      rw [if_pos rfl]
      omega
  | false =>
      have first := known.first kind
      rw [if_neg Bool.false_ne_true, known.fixed]
      omega

/-- Along every sequence of calls on a client that `new` has built, the lookups are
exact if and only if they are timely. -/
theorem lookups_exact_iff (request : AnnounceRequestUdp)
    (connected : Except TrackerError UInt64)
    (announced : Except TrackerError AnnounceResponseUdp) (lastAnnounce : Nat)
    (tracker : TrackerUdp)
    (built : TrackerUdp.new request connected announced connectionTime lastAnnounce = .ok tracker)
    (order : firstReceived ≤ connectionTime) (next : connectionTime ≤ lastAnnounce)
    (polls : List Poll) :
    Always watch ⟨tracker, firstReceived, false, lastAnnounce⟩ polls Exact ↔
      Always watch ⟨tracker, firstReceived, false, lastAnnounce⟩ polls Timely := by
  have fixed : tracker.connectionTime = connectionTime := by
    simp only [TrackerUdp.new, Checked.bind_ok_iff, pure, Except.pure, Except.ok.injEq] at built
    obtain ⟨connectionId, -, response, -, rfl⟩ := built
    rfl
  apply always_iff watch (Known connectionTime firstReceived)
  · intro watched poll after contacts known stepped
    obtain ⟨timed, rfl, -⟩ := (watch_step_iff watched after poll contacts).mp stepped
    exact known_step connectionTime firstReceived watched poll known timed
  · exact ⟨fixed, Nat.le_trans order next, fun _ => rfl, fun absurd => by cases absurd⟩
  · intro watched poll known enabled
    exact exact_iff_timely connectionTime firstReceived order watched poll known
      (Option.isSome_ite.mp enabled)

end Runs

section Refreshes

def quietRequest : AnnounceRequestUdp :=
  AnnounceRequestUdp.new (Vector.replicate 20 0) (Vector.replicate 20 0) 6881 0

def minuteResponse : AnnounceResponseUdp := ⟨1, 1, 60, 0, 0, []⟩

def minuteTracker : TrackerUdp := ⟨1, second, quietRequest, second, minuteResponse⟩

def pollAt (time : Nat) : Poll :=
  { checkedAt := time * second, askedAt := time * second, connected := .ok 2
    receivedAt := time * second, announced := .ok minuteResponse, announcedAt := time * second }

theorem lookups_exact_minute :
    Always watch ⟨minuteTracker, second, false, second⟩ [pollAt 62] Exact ↔
      Always watch ⟨minuteTracker, second, false, second⟩ [pollAt 62] Timely :=
  lookups_exact_iff second second quietRequest (.ok 1) (.ok minuteResponse) second minuteTracker
    rfl (Nat.le_refl _) (Nat.le_refl _) [pollAt 62]

/-- The id received at 130 s is requested again at 195 s. -/
theorem fresh_id_requested_again :
    TrackerUdp.new quietRequest (.ok 1) (.ok minuteResponse) second second = .ok minuteTracker ∧
      ¬ Always watch ⟨minuteTracker, second, false, second⟩ [pollAt 130, pollAt 195] Exact := by
  refine ⟨rfl, fun always => ?_⟩
  have exact_lookup := always [pollAt 130] (pollAt 195) []
    (observe ⟨minuteTracker, second, false, second⟩ (pollAt 130)) [.connect, .announce] rfl rfl
    rfl rfl
  have again : 130 * second + connectionExpiry ≤ 195 * second := exact_lookup.1.mp rfl
  revert again
  decide

end Refreshes

end MotteSeed.ConnectionIds
