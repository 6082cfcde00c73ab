import Mathlib.Data.List.Basic

/-! A loop that handles one input after another and ends when a test holds after an
input. Whatever the inputs, it has handled a prefix of them, and it has ended exactly
if the test held after a nonempty prefix. -/
namespace Toolkit.Loops

universe u v w
variable {State : Type u} {Input : Type v} {Output : Type w}

def handleAll (handle : State → Input → State × List Output) :
    State → List Input → State × List Output
  | state, [] => (state, [])
  | state, input :: rest =>
      let handled := handle state input
      let later := handleAll handle handled.1 rest
      (later.1, handled.2 ++ later.2)

/-- The loop on the given inputs, and whether it has ended. -/
def loop (handle : State → Input → State × List Output) (done : State → Bool) :
    State → List Input → State × List Output × Bool
  | state, [] => (state, [], false)
  | state, input :: rest =>
      let handled := handle state input
      if done handled.1 then (handled.1, handled.2, true)
      else
        let later := loop handle done handled.1 rest
        (later.1, handled.2 ++ later.2.1, later.2.2)

variable (handle : State → Input → State × List Output) (done : State → Bool)

theorem handle_all_append (state : State) (past future : List Input) :
    handleAll handle state (past ++ future) =
      ((handleAll handle (handleAll handle state past).1 future).1,
        (handleAll handle state past).2 ++
          (handleAll handle (handleAll handle state past).1 future).2) := by
  induction past generalizing state with
  | nil => rfl
  | cons input rest ih =>
      simp only [List.cons_append, handleAll, ih, List.append_assoc]

theorem handle_all_idle (state : State) (inputs : List Input)
    (idle : ∀ input ∈ inputs, handle state input = (state, [])) :
    handleAll handle state inputs = (state, []) := by
  induction inputs with
  | nil => rfl
  | cons input rest ih =>
      have first := idle input List.mem_cons_self
      have later := ih fun other member => idle other (List.mem_cons_of_mem input member)
      simp only [handleAll, first, later, List.append_nil]

theorem loop_prefix (state : State) (inputs : List Input) :
    ∃ count ≤ inputs.length,
      (loop handle done state inputs).1 = (handleAll handle state (inputs.take count)).1 ∧
      (loop handle done state inputs).2.1 = (handleAll handle state (inputs.take count)).2 ∧
      (count < inputs.length → (loop handle done state inputs).2.2 = true) ∧
      ((loop handle done state inputs).2.2 = true →
        done (handleAll handle state (inputs.take count)).1 = true) := by
  induction inputs generalizing state with
  | nil => exact ⟨0, Nat.le_refl 0, rfl, rfl, fun less => absurd less (Nat.lt_irrefl 0),
      fun ended => absurd ended Bool.false_ne_true⟩
  | cons input rest ih =>
      by_cases ends : done (handle state input).1 = true
      · refine ⟨1, Nat.succ_le_succ (Nat.zero_le _), ?_⟩
        simp only [loop, if_pos ends, List.take_succ_cons, List.take_zero, handleAll,
          List.append_nil]
        exact ⟨trivial, trivial, fun _ => trivial, fun _ => ends⟩
      · obtain ⟨count, bound, state_eq, log_eq, early, final⟩ := ih (handle state input).1
        refine ⟨count + 1, Nat.succ_le_succ bound, ?_⟩
        simp only [loop, if_neg ends, List.take_succ_cons, handleAll]
        exact ⟨state_eq, by rw [log_eq], fun less => early (Nat.lt_of_succ_lt_succ less), final⟩

theorem loop_ends_iff (state : State) (inputs : List Input) :
    (loop handle done state inputs).2.2 = true ↔
      ∃ count, 0 < count ∧ count ≤ inputs.length ∧
        done (handleAll handle state (inputs.take count)).1 = true := by
  induction inputs generalizing state with
  | nil =>
      refine iff_of_false Bool.false_ne_true ?_
      rintro ⟨count, positive, bound, -⟩
      exact absurd positive (Nat.not_lt_of_le bound)
  | cons input rest ih =>
      by_cases ends : done (handle state input).1 = true
      · simp only [loop, if_pos ends, true_iff]
        exact ⟨1, Nat.one_pos, Nat.succ_le_succ (Nat.zero_le _), by simpa [handleAll] using ends⟩
      · simp only [loop, if_neg ends, ih]
        constructor
        · rintro ⟨count, -, bound, held⟩
          exact ⟨count + 1, Nat.succ_pos count, Nat.succ_le_succ bound, held⟩
        · rintro ⟨count, positive, bound, held⟩
          cases count with
          | zero => exact absurd positive (Nat.lt_irrefl 0)
          | succ count =>
              cases count with
              | zero => exact absurd (by simpa [handleAll] using held) ends
              | succ count =>
                  exact ⟨count + 1, Nat.succ_pos count, Nat.le_of_succ_le_succ bound, held⟩

end Toolkit.Loops
