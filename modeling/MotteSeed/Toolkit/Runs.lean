import Mathlib.Data.List.Basic
import Mathlib.Data.List.Induction
import Mathlib.Algebra.GroupWithZero.Nat

/-! Labelled machines with an output log. A step may be unavailable, so a run
is a partial function of its input list; every input is consumed in order and
the outputs of the steps are concatenated. Invariants may mention the log, so
one induction covers safety of the state and of everything emitted so far. -/
namespace Toolkit.Runs

universe u v w
variable {State : Type u} {Input : Type v} {Output : Type w}

structure Machine (State : Type u) (Input : Type v) (Output : Type w) where
  step : State → Input → Option (State × List Output)

def run (machine : Machine State Input Output) :
    State → List Input → Option (State × List Output)
  | state, [] => some (state, [])
  | state, input :: rest =>
      match machine.step state input with
      | none => none
      | some (next, emitted) =>
          match run machine next rest with
          | none => none
          | some (last, later) => some (last, emitted ++ later)

def Reaches (machine : Machine State Input Output) (start finish : State) : Prop :=
  ∃ inputs outputs, run machine start inputs = some (finish, outputs)

@[simp] theorem run_nil (machine : Machine State Input Output) (state : State) :
    run machine state [] = some (state, []) := rfl

theorem run_cons_iff (machine : Machine State Input Output) (start finish : State)
    (input : Input) (rest : List Input) (outputs : List Output) :
    run machine start (input :: rest) = some (finish, outputs) ↔
      ∃ middle emitted later, machine.step start input = some (middle, emitted) ∧
        run machine middle rest = some (finish, later) ∧ outputs = emitted ++ later := by
  constructor
  · intro ran
    simp only [run] at ran
    cases stepped : machine.step start input with
    | none => simp [stepped] at ran
    | some pair =>
        obtain ⟨middle, emitted⟩ := pair
        simp only [stepped] at ran
        cases tail : run machine middle rest with
        | none => simp [tail] at ran
        | some last =>
            obtain ⟨final, later⟩ := last
            simp only [tail, Option.some.injEq, Prod.mk.injEq] at ran
            obtain ⟨rfl, rfl⟩ := ran
            exact ⟨middle, emitted, later, rfl, tail, rfl⟩
  · rintro ⟨middle, emitted, later, stepped, tail, rfl⟩
    simp [run, stepped, tail]

theorem run_append_iff (machine : Machine State Input Output) (start finish : State)
    (past future : List Input) (outputs : List Output) :
    run machine start (past ++ future) = some (finish, outputs) ↔
      ∃ middle before after, run machine start past = some (middle, before) ∧
        run machine middle future = some (finish, after) ∧ outputs = before ++ after := by
  induction past generalizing start outputs with
  | nil => simp
  | cons input rest ih =>
      simp only [List.cons_append, run_cons_iff]
      constructor
      · rintro ⟨next, emitted, later, stepped, tail, rfl⟩
        obtain ⟨middle, before, after, first, second, rfl⟩ := (ih next later).mp tail
        exact ⟨middle, emitted ++ before, after, ⟨next, emitted, before, stepped, first, rfl⟩,
          second, (List.append_assoc _ _ _).symm⟩
      · rintro ⟨middle, before, after, ⟨next, emitted, later, stepped, first, rfl⟩, second, rfl⟩
        exact ⟨next, emitted, later ++ after, stepped,
          (ih next (later ++ after)).mpr ⟨middle, later, after, first, second, rfl⟩,
          List.append_assoc _ _ _⟩

theorem run_snoc_iff (machine : Machine State Input Output) (start finish : State)
    (past : List Input) (input : Input) (outputs : List Output) :
    run machine start (past ++ [input]) = some (finish, outputs) ↔
      ∃ middle log emitted, run machine start past = some (middle, log) ∧
        machine.step middle input = some (finish, emitted) ∧ outputs = log ++ emitted := by
  rw [run_append_iff]
  constructor
  · rintro ⟨middle, log, after, first, last, rfl⟩
    obtain ⟨next, emitted, later, stepped, ended, rfl⟩ :=
      (run_cons_iff machine middle finish input [] after).mp last
    obtain ⟨rfl, rfl⟩ := by simpa using ended
    exact ⟨middle, log, emitted, first, stepped, by simp⟩
  · rintro ⟨middle, log, emitted, first, stepped, rfl⟩
    exact ⟨middle, log, emitted, first, (run_cons_iff machine middle finish input [] emitted).mpr
      ⟨finish, emitted, [], stepped, rfl, by simp⟩, rfl⟩

theorem reaches_refl (machine : Machine State Input Output) (start : State) :
    Reaches machine start start := ⟨[], [], rfl⟩

theorem reaches_step (machine : Machine State Input Output) (start middle finish : State)
    (input : Input) (emitted : List Output) (reached : Reaches machine start middle)
    (stepped : machine.step middle input = some (finish, emitted)) :
    Reaches machine start finish := by
  obtain ⟨inputs, outputs, ran⟩ := reached
  exact ⟨inputs ++ [input], outputs ++ emitted,
    (run_snoc_iff machine start finish inputs input _).mpr ⟨middle, outputs, emitted, ran,
      stepped, rfl⟩⟩

theorem reaches_trans (machine : Machine State Input Output) (start middle finish : State)
    (before : Reaches machine start middle) (after : Reaches machine middle finish) :
    Reaches machine start finish := by
  obtain ⟨past, log, ran⟩ := before
  obtain ⟨future, later, went⟩ := after
  exact ⟨past ++ future, log ++ later, (run_append_iff machine start finish past future _).mpr
    ⟨middle, log, later, ran, went, rfl⟩⟩

/-- The induction rule for the states along one run. The invariant sees the
inputs consumed and everything emitted since the start, and a step may use that
the inputs so far are the beginning of the run that is being followed. -/
theorem run_history (machine : Machine State Input Output) (start : State)
    (inputs : List Input) (inv : List Input → State → List Output → Prop)
    (initial : inv [] start [])
    (keeps : ∀ past input state log next emitted, past ++ [input] <+: inputs →
      run machine start past = some (state, log) → inv past state log →
      machine.step state input = some (next, emitted) →
      inv (past ++ [input]) next (log ++ emitted))
    (past : List Input) (began : past <+: inputs) (finish : State) (outputs : List Output)
    (ran : run machine start past = some (finish, outputs)) : inv past finish outputs := by
  induction past using List.reverseRecOn generalizing finish outputs with
  | nil =>
      obtain ⟨rfl, rfl⟩ := by simpa using ran
      exact initial
  | append_singleton past input ih =>
      obtain ⟨middle, log, emitted, first, stepped, rfl⟩ :=
        (run_snoc_iff machine start finish past input outputs).mp ran
      have before := ih ((List.prefix_append past [input]).trans began) middle log first
      exact keeps past input middle log finish emitted began first before stepped

theorem run_invariant (machine : Machine State Input Output)
    (inv : State → List Output → Prop)
    (keeps : ∀ state log input next emitted, inv state log →
      machine.step state input = some (next, emitted) → inv next (log ++ emitted))
    (start finish : State) (inputs : List Input) (outputs : List Output)
    (initial : inv start []) (ran : run machine start inputs = some (finish, outputs)) :
    inv finish outputs :=
  run_history machine start inputs (fun _ => inv) initial
    (fun _ input state log next emitted _ _ holds stepped =>
      keeps state log input next emitted holds stepped)
    inputs (List.prefix_refl inputs) finish outputs ran

theorem run_state_invariant (machine : Machine State Input Output) (inv : State → Prop)
    (keeps : ∀ state input next emitted, inv state →
      machine.step state input = some (next, emitted) → inv next)
    (start finish : State) (inputs : List Input) (outputs : List Output)
    (initial : inv start) (ran : run machine start inputs = some (finish, outputs)) :
    inv finish :=
  run_invariant machine (fun state _ => inv state)
    (fun state _ input next emitted => keeps state input next emitted)
    start finish inputs outputs initial ran

theorem reaches_invariant (machine : Machine State Input Output) (inv : State → Prop)
    (keeps : ∀ state input next emitted, inv state →
      machine.step state input = some (next, emitted) → inv next)
    (start finish : State) (initial : inv start) (reached : Reaches machine start finish) :
    inv finish := by
  obtain ⟨inputs, outputs, ran⟩ := reached
  exact run_state_invariant machine inv keeps start finish inputs outputs initial ran

def Always (machine : Machine State Input Output) (start : State) (inputs : List Input)
    (holds : State → Input → Prop) : Prop :=
  ∀ past input later state log, inputs = past ++ input :: later →
    run machine start past = some (state, log) → (machine.step state input).isSome →
      holds state input

theorem always_iff (machine : Machine State Input Output) (inv : State → Prop)
    (keeps : ∀ state input next emitted, inv state →
      machine.step state input = some (next, emitted) → inv next)
    (start : State) (initial : inv start) (inputs : List Input)
    (first second : State → Input → Prop)
    (agree : ∀ state input, inv state → (machine.step state input).isSome →
      (first state input ↔ second state input)) :
    Always machine start inputs first ↔ Always machine start inputs second := by
  constructor
  · intro always past input later state log split ran enabled
    have holds := run_state_invariant machine inv keeps start state past log initial ran
    exact (agree state input holds enabled).mp (always past input later state log split ran enabled)
  · intro always past input later state log split ran enabled
    have holds := run_state_invariant machine inv keeps start state past log initial ran
    exact (agree state input holds enabled).mpr
      (always past input later state log split ran enabled)

theorem split_snoc {Item : Type u} (past later items : List Item) (here last : Item)
    (same : items ++ [last] = past ++ here :: later) :
    (later = [] ∧ items = past ∧ last = here) ∨
      ∃ rest, later = rest ++ [last] ∧ items = past ++ here :: rest := by
  rcases List.eq_nil_or_concat' later with rfl | ⟨rest, final, rfl⟩
  · obtain ⟨before, ends⟩ := List.append_inj' same rfl
    exact Or.inl ⟨rfl, before, (List.cons.inj ends).1⟩
  · rw [← List.cons_append, ← List.append_assoc] at same
    obtain ⟨before, ends⟩ := List.append_inj' same rfl
    obtain rfl := (List.cons.inj ends).1
    exact Or.inr ⟨rest, rfl, before⟩

/-- Some input met `event` in its state, and no later one of these `clears` it. -/
def Remembers (machine : Machine State Input Output) (event : State → Input → Prop)
    (clears : Input → Prop) (start : State) (inputs : List Input) : Prop :=
  ∃ past input later state outputs, inputs = past ++ input :: later ∧
    run machine start past = some (state, outputs) ∧ event state input ∧
      ∀ next ∈ later, ¬ clears next

theorem remembers_nil (machine : Machine State Input Output) (event : State → Input → Prop)
    (clears : Input → Prop) (start : State) : ¬ Remembers machine event clears start [] := by
  rintro ⟨past, input, later, state, outputs, same, -⟩
  simp at same

/-- One more input: it is the event itself, or it leaves the memory of an earlier one. -/
theorem remembers_snoc_iff (machine : Machine State Input Output)
    (event : State → Input → Prop) (clears : Input → Prop) (start state : State)
    (inputs : List Input) (input : Input) (outputs : List Output)
    (ran : run machine start inputs = some (state, outputs)) :
    Remembers machine event clears start (inputs ++ [input]) ↔
      event state input ∨ (Remembers machine event clears start inputs ∧ ¬ clears input) := by
  constructor
  · rintro ⟨past, first, later, middle, before, same, began, held, kept⟩
    rcases split_snoc past later inputs first input same with
      ⟨rfl, rfl, rfl⟩ | ⟨rest, rfl, rfl⟩
    · obtain ⟨rfl, -⟩ := Prod.mk.inj (Option.some.inj (ran.symm.trans began))
      exact Or.inl held
    · refine Or.inr ⟨⟨past, first, rest, middle, before, rfl, began, held, ?_⟩, ?_⟩
      · exact fun next member => kept next (List.mem_append_left _ member)
      · exact kept input (List.mem_append_right rest List.mem_cons_self)
  · rintro (held | ⟨⟨past, first, later, middle, before, rfl, began, held, kept⟩, stays⟩)
    · exact ⟨inputs, input, [], state, outputs, rfl, ran, held, by simp⟩
    · refine ⟨past, first, later ++ [input], middle, before, by simp, began, held, ?_⟩
      intro next member
      rcases List.mem_append.mp member with old | new
      · exact kept next old
      · rw [List.mem_singleton.mp new]
        exact stays

/-- From this state inputs of a given total cost can bring the machine to a goal. -/
def Leads (machine : Machine State Input Output) (cost : Input → Nat) (start : State)
    (total : Nat) (goal : State → Prop) : Prop :=
  ∃ inputs finish outputs, run machine start inputs = some (finish, outputs) ∧
    (inputs.map cost).sum = total ∧ goal finish

theorem leads_refl (machine : Machine State Input Output) (cost : Input → Nat) (start : State)
    (goal : State → Prop) (holds : goal start) : Leads machine cost start 0 goal :=
  ⟨[], start, [], rfl, rfl, holds⟩

theorem leads_step (machine : Machine State Input Output) (cost : Input → Nat)
    (start next : State) (input : Input) (emitted : List Output) (goal : State → Prop)
    (stepped : machine.step start input = some (next, emitted)) (holds : goal next) :
    Leads machine cost start (cost input) goal := by
  refine ⟨[input], next, emitted, ?_, by simp, holds⟩
  exact (run_cons_iff machine start next input [] emitted).mpr
    ⟨next, emitted, [], stepped, rfl, (List.append_nil emitted).symm⟩

theorem leads_trans (machine : Machine State Input Output) (cost : Input → Nat) (start : State)
    (first second : Nat) (middle goal : State → Prop)
    (before : Leads machine cost start first middle)
    (after : ∀ state, middle state → Leads machine cost state second goal) :
    Leads machine cost start (first + second) goal := by
  obtain ⟨past, state, log, ran, spent, holds⟩ := before
  obtain ⟨future, finish, later, goes, pays, reached⟩ := after state holds
  refine ⟨past ++ future, finish, log ++ later, ?_, ?_, reached⟩
  · exact (run_append_iff machine start finish past future _).mpr
      ⟨state, log, later, ran, goes, rfl⟩
  · rw [List.map_append, List.sum_append, spent, pays]

theorem leads_repeat (machine : Machine State Input Output) (cost : Input → Nat)
    (stage : Nat → State → Prop) (rounds each : Nat)
    (advance : ∀ i < rounds, ∀ state, stage i state →
      Leads machine cost state each (stage (i + 1)))
    (start : State) (initial : stage 0 start) :
    Leads machine cost start (rounds * each) (stage rounds) := by
  induction rounds with
  | zero =>
      rw [Nat.zero_mul]
      exact leads_refl machine cost start (stage 0) initial
  | succ rounds ih =>
      rw [Nat.succ_mul]
      exact leads_trans machine cost start _ each (stage rounds) _
        (ih fun i less => advance i (Nat.lt_succ_of_lt less))
        (advance rounds (Nat.lt_succ_self rounds))

end Toolkit.Runs
