import MotteSeed.DownloadSafety
import MotteSeed.Toolkit.Loops

/-! The loop of `DownloadManager::run` on a channel that is closed behind its last
event. From then on `recv` yields `None`, which the loop takes like an event without
effect, so only the test for completion ends it. -/
namespace MotteSeed.EventLoop
open Toolkit Toolkit.HashTable Toolkit.Loops Toolkit.Runs PeerWire PeerConnection TorrentMeta
open PieceStore Downloads DownloadSafety

abbrev Event := PeerEvent × PeerIp × Choice

def received (events : List Event) (rounds : Nat) : List Received :=
  (events.map some ++ List.replicate rounds none).take rounds

variable (sha1 : Bytes → Hash)

def handleOne (manager : DownloadManager) (event : Event) : DownloadManager × List Action :=
  handleEvent sha1 event.2.2 manager event.1 event.2.1

def handleEvents : DownloadManager → List Event → DownloadManager × List Action :=
  handleAll (handleOne sha1)

def isComplete (manager : DownloadManager) : Bool := manager.pieceManager.isDownloadComplete

def Returns (manager : DownloadManager) (events : List Event) : Prop :=
  ∃ rounds, (runLoop sha1 manager (received events rounds)).2.2 = true

/-- After any number of iterations a prefix of the events has been handled, and it is
a shorter one than could be only because the loop has returned on completion. -/
def HandlesInOrder (manager : DownloadManager) (events : List Event) : Prop :=
  ∀ rounds, ∃ count ≤ events.length,
    (runLoop sha1 manager (received events rounds)).1 =
      (handleEvents sha1 manager (events.take count)).1 ∧
    (runLoop sha1 manager (received events rounds)).2.1 =
      (handleEvents sha1 manager (events.take count)).2 ∧
    (count < min rounds events.length →
      (runLoop sha1 manager (received events rounds)).2.2 = true ∧
        isComplete (handleEvents sha1 manager (events.take count)).1 = true)

theorem received_length (events : List Event) (rounds : Nat) :
    (received events rounds).length = rounds := by
  rw [received, List.length_take, List.length_append, List.length_replicate]
  omega

theorem run_loop_loop (manager : DownloadManager) (inputs : List Received) :
    runLoop sha1 manager inputs = loop (handleReceived sha1) isComplete manager inputs := by
  induction inputs generalizing manager with
  | nil => rfl
  | cons input rest ih =>
      simp only [runLoop, loop, ih]
      rfl

theorem handle_some (manager : DownloadManager) (events : List Event) :
    handleAll (handleReceived sha1) manager (events.map some) =
      handleEvents sha1 manager events := by
  induction events generalizing manager with
  | nil => rfl
  | cons event rest ih =>
      simp only [List.map_cons, handleAll, ih]
      rfl

theorem handle_received (manager : DownloadManager) (events : List Event)
    (rounds count : Nat) (bound : count ≤ rounds) :
    handleAll (handleReceived sha1) manager ((received events rounds).take count) =
      handleEvents sha1 manager (events.take count) := by
  have idle : ∀ state, ∀ input ∈ (List.replicate rounds none).take
      (count - (events.map some).length), handleReceived sha1 state input = (state, []) := by
    intro state input member
    rw [List.eq_of_mem_replicate (List.mem_of_mem_take member)]
    rfl
  rw [received, List.take_take, Nat.min_eq_left bound, List.take_append, handle_all_append,
    handle_all_idle _ _ _ (idle _), List.append_nil, ← List.map_take, handle_some]

theorem handles_in_order (manager : DownloadManager) (events : List Event) :
    HandlesInOrder sha1 manager events := by
  intro rounds
  obtain ⟨count, bound, state, log, early, final⟩ :=
    loop_prefix (handleReceived sha1) isComplete manager (received events rounds)
  rw [received_length] at bound early
  rw [handle_received sha1 manager events rounds count bound] at state log final
  have taken : events.take (min count events.length) = events.take count := by
    rw [List.take_eq_take_iff]
    omega
  refine ⟨min count events.length, Nat.min_le_right _ _, ?_⟩
  rw [run_loop_loop, taken]
  exact ⟨state, log, fun less => ⟨early (by omega), final (early (by omega))⟩⟩

theorem returns_iff (manager : DownloadManager) (events : List Event) :
    Returns sha1 manager events ↔
      ∃ count ≤ events.length, (count = 0 → events = []) ∧
        isComplete (handleEvents sha1 manager (events.take count)).1 = true := by
  constructor
  · rintro ⟨rounds, returned⟩
    rw [run_loop_loop] at returned
    obtain ⟨count, positive, bound, complete⟩ := (loop_ends_iff _ _ _ _).mp returned
    rw [received_length] at bound
    rw [handle_received sha1 manager events rounds count bound] at complete
    by_cases inside : count ≤ events.length
    · exact ⟨count, inside, fun zero => absurd zero (Nat.ne_of_gt positive), complete⟩
    · rw [List.take_of_length_le (by omega)] at complete
      exact ⟨events.length, Nat.le_refl _, List.eq_nil_of_length_eq_zero,
        by rwa [List.take_length]⟩
  · rintro ⟨count, bound, first, complete⟩
    -- Without events the test comes after the first `None`.
    have same : events.take (max 1 count) = events.take count := by
      by_cases zero : count = 0
      · rw [first zero, List.take_nil, List.take_nil]
      · rw [Nat.max_eq_right (by omega)]
    refine ⟨max 1 count, ?_⟩
    rw [run_loop_loop]
    apply (loop_ends_iff _ _ _ _).mpr
    refine ⟨max 1 count, by omega, by rw [received_length], ?_⟩
    rw [handle_received sha1 manager events _ _ (Nat.le_refl _), same]
    exact complete

/-- On a closed channel the loop returns, with its events handled in order, exactly
when the download is complete after some of the events, at least one unless there is
none. -/
theorem closed_loop_returns_iff (manager : DownloadManager) (events : List Event) :
    (Returns sha1 manager events ∧ HandlesInOrder sha1 manager events) ↔
      ∃ count ≤ events.length, (count = 0 → events = []) ∧
        isComplete (handleEvents sha1 manager (events.take count)).1 = true := by
  rw [returns_iff]
  exact and_iff_left (handles_in_order sha1 manager events)

/-- A torrent of one block whose channel is closed before any event. -/
theorem closed_at_once_runs_on :
    ∃ manager, DownloadManager.new oneBlock 4 = some manager ∧
      ¬ Returns zeroHash manager [] := by
  refine ⟨(DownloadManager.new oneBlock 4).get (by decide), (Option.some_get _).symm, ?_⟩
  intro returned
  obtain ⟨count, -, -, complete⟩ := (returns_iff zeroHash _ []).mp returned
  rw [List.take_nil] at complete
  revert complete
  decide

end MotteSeed.EventLoop
