import MotteSeed.Toolkit.Runs

/-! One machine seen through a part of its state. If every step of the whole is a run of
the part, a run of the whole is a run of the part, and what relates the two traces may
be carried along. If the whole follows every step of the part, it follows every run. -/
namespace Toolkit.Runs

variable {State Part Input Request Output Reply : Type*}

/-- The simulation rule. `relates` ties what the whole has taken and emitted, and the state
it has come to, to what the part has taken and emitted. -/
theorem run_simulates (whole : Machine State Input Output) (part : Machine Part Request Reply)
    (view : State → Part)
    (relates : List Input → State → List Output → List Request → List Reply → Prop)
    (start : State) (inputs : List Input) (initial : relates [] start [] [] [])
    (steps : ∀ past input state log next emitted asked replies, past ++ [input] <+: inputs →
      run whole start past = some (state, log) → relates past state log asked replies →
      whole.step state input = some (next, emitted) →
      ∃ more later, run part (view state) more = some (view next, later) ∧
        relates (past ++ [input]) next (log ++ emitted) (asked ++ more) (replies ++ later))
    (finish : State) (outputs : List Output)
    (ran : run whole start inputs = some (finish, outputs)) :
    ∃ asked replies, run part (view start) asked = some (view finish, replies) ∧
      relates inputs finish outputs asked replies := by
  refine run_history whole start inputs (fun past state log => ∃ asked replies,
    run part (view start) asked = some (view state, replies) ∧
      relates past state log asked replies)
    ⟨[], [], rfl, initial⟩ ?_ inputs (List.prefix_refl inputs) finish outputs ran
  rintro past input state log next emitted began reached ⟨asked, replies, before, related⟩ stepped
  obtain ⟨more, later, goes, kept⟩ :=
    steps past input state log next emitted asked replies began reached related stepped
  exact ⟨asked ++ more, replies ++ later,
    (run_append_iff part _ _ asked more _).mpr ⟨_, replies, later, before, goes, rfl⟩, kept⟩

theorem run_one (part : Machine Part Request Reply) (state next : Part) (input : Request)
    (emitted : List Reply) (stepped : part.step state input = some (next, emitted)) :
    run part state [input] = some (next, emitted) :=
  (run_cons_iff part state next input [] emitted).mpr
    ⟨next, emitted, [], stepped, rfl, (List.append_nil emitted).symm⟩

theorem run_embeds (part : Machine Part Request Output) (whole : Machine State Input Output)
    (embed : Part → State) (label : Request → Input) (allowed : Request → Prop)
    (steps : ∀ state input next emitted, allowed input →
      part.step state input = some (next, emitted) →
      whole.step (embed state) (label input) = some (embed next, emitted))
    (state next : Part) (inputs : List Request) (outputs : List Output)
    (fine : ∀ input ∈ inputs, allowed input)
    (ran : run part state inputs = some (next, outputs)) :
    run whole (embed state) (inputs.map label) = some (embed next, outputs) := by
  induction inputs generalizing state outputs with
  | nil =>
      obtain ⟨rfl, rfl⟩ := by simpa using ran
      rfl
  | cons input rest ih =>
      obtain ⟨middle, first, later, stepped, tail, rfl⟩ := (run_cons_iff _ _ _ _ _ _).mp ran
      exact (run_cons_iff _ _ _ _ _ _).mpr ⟨embed middle, first, later,
        steps state input middle first (fine input List.mem_cons_self) stepped,
        ih middle later (fun other member => fine other (List.mem_cons_of_mem input member)) tail,
        rfl⟩

theorem run_lifted (part : Machine Part Input Output) (whole : Machine State Input Output)
    (view : State → Part) (fine : State → Prop)
    (steps : ∀ state input after emitted, fine state →
      part.step (view state) input = some (after, emitted) →
      ∃ next, whole.step state input = some (next, emitted) ∧ view next = after ∧ fine next)
    (state : State) (inputs : List Input) (after : Part) (outputs : List Output)
    (good : fine state) (ran : run part (view state) inputs = some (after, outputs)) :
    ∃ finish, run whole state inputs = some (finish, outputs) ∧ view finish = after ∧
      fine finish := by
  induction inputs generalizing state outputs with
  | nil =>
      obtain ⟨rfl, rfl⟩ := by simpa using ran
      exact ⟨state, rfl, rfl, good⟩
  | cons input rest ih =>
      obtain ⟨middle, first, later, performed, goes, rfl⟩ := (run_cons_iff _ _ _ _ _ _).mp ran
      obtain ⟨next, stepped, rfl, still⟩ := steps state input middle first good performed
      obtain ⟨finish, tail, same, kept⟩ := ih next later still goes
      exact ⟨finish, (run_cons_iff _ _ _ _ _ _).mpr ⟨next, first, later, stepped, tail, rfl⟩,
        same, kept⟩

end Toolkit.Runs
