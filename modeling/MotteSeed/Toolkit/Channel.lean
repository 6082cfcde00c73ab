import Mathlib.Data.List.Basic

/-! Bounded first-in first-out channels. The bound is a field, so a channel holding more
than its capacity cannot be built. A send to a full channel is unavailable, and becomes
available again when something is received. -/
namespace Toolkit.Channels

@[ext] structure Channel (α : Type) (capacity : Nat) where
  queue : List α
  bounded : queue.length ≤ capacity

variable {α : Type} {capacity : Nat}

def Channel.new : Channel α capacity := ⟨[], Nat.zero_le capacity⟩

def Channel.send (channel : Channel α capacity) (item : α) : Option (Channel α capacity) :=
  if room : channel.queue.length < capacity then
    some ⟨channel.queue ++ [item], by
      rw [List.length_append]
      exact room⟩
  else none

def Channel.recv (channel : Channel α capacity) : Option (α × Channel α capacity) :=
  match channel with
  | ⟨[], _⟩ => none
  | ⟨item :: rest, bounded⟩ => some (item, ⟨rest, Nat.le_of_succ_le bounded⟩)

def Channel.Full (channel : Channel α capacity) : Prop := channel.queue.length = capacity

@[simp] theorem new_queue : (Channel.new : Channel α capacity).queue = [] := rfl

theorem send_some_iff (channel after : Channel α capacity) (item : α) :
    channel.send item = some after ↔ after.queue = channel.queue ++ [item] := by
  unfold Channel.send
  constructor
  · intro sent
    split at sent
    · obtain rfl := Option.some.inj sent
      rfl
    · cases sent
  · intro grown
    have bounded := after.bounded
    rw [grown, List.length_append, List.length_singleton] at bounded
    rw [dif_pos (show channel.queue.length < capacity from bounded)]
    exact congrArg some (Channel.ext grown.symm)

theorem send_none_iff (channel : Channel α capacity) (item : α) :
    channel.send item = none ↔ channel.Full := by
  unfold Channel.send Channel.Full
  have bounded := channel.bounded
  split
  · rename_i room
    exact iff_of_false (Option.some_ne_none _) (Nat.ne_of_lt room)
  · rename_i crowded
    exact iff_of_true rfl (Nat.le_antisymm bounded (Nat.le_of_not_lt crowded))

theorem full_refuses (channel after : Channel α capacity) (item : α) (full : channel.Full) :
    after.queue ≠ channel.queue ++ [item] := by
  intro grown
  have sent := (send_some_iff channel after item).mpr grown
  rw [(send_none_iff channel item).mpr full] at sent
  cases sent

theorem recv_some_iff (channel after : Channel α capacity) (item : α) :
    channel.recv = some (item, after) ↔ channel.queue = item :: after.queue := by
  obtain ⟨queue, bounded⟩ := channel
  cases queue with
  | nil => simp [Channel.recv]
  | cons first rest => simp [Channel.recv, Channel.ext_iff]

def Channel.filled (item : α) (count : Nat) : Channel α capacity :=
  ⟨List.replicate (min count capacity) item, by
    rw [List.length_replicate]
    exact Nat.min_le_right count capacity⟩

theorem filled_queue (item : α) (count : Nat) (fits : count ≤ capacity) :
    (Channel.filled item count : Channel α capacity).queue = List.replicate count item := by
  simp only [Channel.filled, Nat.min_eq_left fits]

theorem filled_zero (item : α) : (Channel.filled item 0 : Channel α capacity) = Channel.new :=
  Channel.ext (filled_queue item 0 (Nat.zero_le capacity))

theorem filled_send (item : α) (count : Nat) (room : count < capacity) :
    (Channel.filled item count : Channel α capacity).send item =
      some (Channel.filled item (count + 1)) := by
  apply (send_some_iff _ _ item).mpr
  rw [filled_queue item count (Nat.le_of_lt room), filled_queue item (count + 1) room,
    List.replicate_succ']

theorem filled_recv (item : α) (count : Nat) (room : count < capacity) :
    (Channel.filled item (count + 1) : Channel α capacity).recv =
      some (item, Channel.filled item count) := by
  apply (recv_some_iff _ _ item).mpr
  rw [filled_queue item count (Nat.le_of_lt room), filled_queue item (count + 1) room,
    List.replicate_succ]

theorem filled_full (item : α) : (Channel.filled item capacity : Channel α capacity).Full := by
  rw [Channel.Full, filled_queue item capacity (Nat.le_refl capacity), List.length_replicate]

end Toolkit.Channels
