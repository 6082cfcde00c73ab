import Mathlib.Logic.Function.Basic
import MotteSeed.Toolkit.Runs

/-! Two parties that greet each other over a connection. Each writes its whole greeting
before it reads one of fixed size, in whatever portions the connection takes and gives.
What is read is always right; whether both come to an end depends on how much the
connection can hold. -/
namespace Toolkit.Greeting
open Runs

universe u
variable {Item : Type u}

structure Party (Item : Type u) where
  unsent : List Item
  got : List Item

/-- The two parties, and what is under way to each of them. -/
structure Wire (Item : Type u) where
  party : Bool → Party Item
  inbox : Bool → List Item

inductive Act where
  | write (side : Bool) (count : Nat)
  | read (side : Bool) (count : Nat)

def Wire.start (greeting : Bool → List Item) : Wire Item :=
  ⟨fun side => ⟨greeting side, []⟩, fun _ => []⟩

def Wire.write (wire : Wire Item) (side : Bool) (count : Nat) : Wire Item where
  party := Function.update wire.party side
    { wire.party side with unsent := (wire.party side).unsent.drop count }
  inbox := Function.update wire.inbox (!side)
    (wire.inbox (!side) ++ (wire.party side).unsent.take count)

def Wire.read (wire : Wire Item) (side : Bool) (count : Nat) : Wire Item where
  party := Function.update wire.party side
    { wire.party side with got := (wire.party side).got ++ (wire.inbox side).take count }
  inbox := Function.update wire.inbox side ((wire.inbox side).drop count)

section Steps

variable (size : Nat) (capacity : Bool → Nat)

/-- Some items are written if the way has room, or read once everything is written. -/
def step (wire : Wire Item) : Act → Option (Wire Item × List Unit)
  | .write side count =>
      if 0 < count ∧ count ≤ (wire.party side).unsent.length ∧
          (wire.inbox (!side)).length + count ≤ capacity (!side) then
        some (wire.write side count, [])
      else none
  | .read side count =>
      if (wire.party side).unsent.length = 0 ∧ 0 < count ∧ count ≤ (wire.inbox side).length ∧
          (wire.party side).got.length + count ≤ size then
        some (wire.read side count, [])
      else none

def greeters : Machine (Wire Item) Act Unit := ⟨step size capacity⟩

inductive Moved (wire : Wire Item) : Act → Wire Item → Prop where
  | wrote (side : Bool) (count : Nat) (some_items : 0 < count)
      (unsent : count ≤ (wire.party side).unsent.length)
      (room : (wire.inbox (!side)).length + count ≤ capacity (!side)) :
      Moved wire (.write side count) (wire.write side count)
  | read (side : Bool) (count : Nat) (sent : (wire.party side).unsent.length = 0)
      (some_items : 0 < count) (inside : count ≤ (wire.inbox side).length)
      (wanted : (wire.party side).got.length + count ≤ size) :
      Moved wire (.read side count) (wire.read side count)

theorem step_iff (wire next : Wire Item) (act : Act) (notes : List Unit) :
    step size capacity wire act = some (next, notes) ↔
      Moved size capacity wire act next ∧ notes = [] := by
  constructor
  · intro stepped
    cases act with
    | write side count =>
        simp only [step] at stepped
        split at stepped
        · rename_i allowed
          obtain ⟨rfl, rfl⟩ := Prod.mk.inj (Option.some.inj stepped)
          exact ⟨.wrote side count allowed.1 allowed.2.1 allowed.2.2, rfl⟩
        · cases stepped
    | read side count =>
        simp only [step] at stepped
        split at stepped
        · rename_i allowed
          obtain ⟨rfl, rfl⟩ := Prod.mk.inj (Option.some.inj stepped)
          exact ⟨.read side count allowed.1 allowed.2.1 allowed.2.2.1 allowed.2.2.2, rfl⟩
        · cases stepped
  · rintro ⟨moved, rfl⟩
    cases moved with
    | wrote side count some_items unsent room =>
        simp only [step, if_pos (And.intro some_items (And.intro unsent room))]
    | read side count sent some_items inside wanted =>
        simp only [step, if_pos (And.intro sent (And.intro some_items (And.intro inside wanted)))]

end Steps

section Updates

variable (wire : Wire Item) (side : Bool) (count : Nat)

@[simp] theorem write_unsent : ((wire.write side count).party side).unsent =
    (wire.party side).unsent.drop count := by
  simp [Wire.write]

@[simp] theorem write_got (other : Bool) : ((wire.write side count).party other).got =
    (wire.party other).got := by
  by_cases same : other = side
  · simp [Wire.write, same]
  · simp [Wire.write, same]

@[simp] theorem write_unsent_other : ((wire.write side count).party (!side)).unsent =
    (wire.party (!side)).unsent := by
  simp [Wire.write]

@[simp] theorem write_inbox : (wire.write side count).inbox side = wire.inbox side := by
  simp [Wire.write]

@[simp] theorem write_inbox_other : (wire.write side count).inbox (!side) =
    wire.inbox (!side) ++ (wire.party side).unsent.take count := by
  simp [Wire.write]

@[simp] theorem read_unsent (other : Bool) : ((wire.read side count).party other).unsent =
    (wire.party other).unsent := by
  by_cases same : other = side
  · simp [Wire.read, same]
  · simp [Wire.read, same]

@[simp] theorem read_got : ((wire.read side count).party side).got =
    (wire.party side).got ++ (wire.inbox side).take count := by
  simp [Wire.read]

@[simp] theorem read_got_other : ((wire.read side count).party (!side)).got =
    (wire.party (!side)).got := by
  simp [Wire.read]

@[simp] theorem read_inbox : (wire.read side count).inbox side =
    (wire.inbox side).drop count := by
  simp [Wire.read]

@[simp] theorem read_inbox_other : (wire.read side count).inbox (!side) =
    wire.inbox (!side) := by
  simp [Wire.read]

theorem write_party_other (other : Bool) (apart : other ≠ side) :
    (wire.write side count).party other = wire.party other :=
  Function.update_of_ne apart _ _

theorem read_party_other (other : Bool) (apart : other ≠ side) :
    (wire.read side count).party other = wire.party other :=
  Function.update_of_ne apart _ _

end Updates

section Safety

variable (size : Nat) (capacity : Bool → Nat) (greeting : Bool → List Item)

structure Sane (wire : Wire Item) : Prop where
  conserved : ∀ side, greeting side =
    (wire.party (!side)).got ++ wire.inbox (!side) ++ (wire.party side).unsent
  room : ∀ side, (wire.inbox side).length ≤ capacity side
  wanted : ∀ side, (wire.party side).got.length ≤ size
  patient : ∀ side, (wire.party side).got = [] ∨ (wire.party side).unsent = []

theorem sane_start : Sane size capacity greeting (Wire.start greeting) :=
  ⟨fun _ => rfl, fun _ => Nat.zero_le _, fun _ => Nat.zero_le _, fun _ => Or.inl rfl⟩

theorem both_sides (holds : Bool → Prop) (side : Bool) (here : holds side)
    (there : holds (!side)) (other : Bool) : holds other := by
  cases other <;> cases side <;> assumption

theorem moved_sane (wire next : Wire Item) (act : Act) (sane : Sane size capacity greeting wire)
    (moved : Moved size capacity wire act next) : Sane size capacity greeting next := by
  cases moved with
  | wrote side count some_items unsent room =>
      refine ⟨both_sides _ side ?_ ?_, both_sides _ side ?_ ?_, fun other => ?_,
        both_sides _ side (Or.inl ?_) ?_⟩
      · rw [write_got, write_inbox_other, write_unsent, List.append_assoc, List.append_assoc,
          List.take_append_drop, ← List.append_assoc, ← sane.conserved]
      · rw [Bool.not_not, write_got, write_inbox, write_unsent_other]
        simpa only [Bool.not_not] using sane.conserved (!side)
      · rw [write_inbox]
        exact sane.room side
      · rw [write_inbox_other, List.length_append, List.length_take_of_le unsent]
        exact room
      · rw [write_got]
        exact sane.wanted other
      · rw [write_got]
        refine (sane.patient side).resolve_right fun done => ?_
        rw [done, List.length_nil] at unsent
        omega
      · rw [write_got, write_unsent_other]
        exact sane.patient (!side)
  | read side count sent _ inside wanted =>
      refine ⟨both_sides _ side ?_ ?_, both_sides _ side ?_ ?_, both_sides _ side ?_ ?_,
        both_sides _ side (Or.inr ?_) ?_⟩
      · rw [read_got_other, read_inbox_other, read_unsent, ← sane.conserved]
      · rw [Bool.not_not, read_got, read_inbox, read_unsent, List.append_assoc _ _ (List.drop _ _),
          List.take_append_drop]
        simpa only [Bool.not_not] using sane.conserved (!side)
      · rw [read_inbox, List.length_drop]
        exact Nat.le_trans (Nat.sub_le _ _) (sane.room side)
      · rw [read_inbox_other]
        exact sane.room (!side)
      · rw [read_got, List.length_append, List.length_take_of_le inside]
        exact wanted
      · rw [read_got_other]
        exact sane.wanted (!side)
      · rw [read_unsent]
        exact List.eq_nil_of_length_eq_zero sent
      · rw [read_got_other, read_unsent]
        exact sane.patient (!side)

theorem run_sane (wire finish : Wire Item) (acts : List Act) (notes : List Unit)
    (sane : Sane size capacity greeting wire)
    (ran : run (greeters size capacity) wire acts = some (finish, notes)) :
    Sane size capacity greeting finish :=
  run_state_invariant (greeters size capacity) (Sane size capacity greeting)
    (fun state act next notes holds stepped => moved_sane size capacity greeting state next act
      holds ((step_iff size capacity state next act notes).mp stepped).1)
    wire finish acts notes sane ran

def Wire.Finished (wire : Wire Item) (side : Bool) : Prop :=
  (wire.party side).unsent = [] ∧ (wire.party side).got.length = size

theorem finished_got (sized : ∀ side, (greeting side).length = size) (wire : Wire Item)
    (sane : Sane size capacity greeting wire) (side : Bool)
    (full : (wire.party side).got.length = size) :
    (wire.party side).got = greeting (!side) := by
  have conserved := sane.conserved (!side)
  rw [Bool.not_not, List.append_assoc] at conserved
  have lengths := congrArg List.length conserved
  rw [sized, List.length_append] at lengths
  have drained : (wire.inbox side ++ (wire.party (!side)).unsent).length = 0 := by omega
  rw [conserved, List.eq_nil_of_length_eq_zero drained, List.append_nil]

end Safety

section Progress

variable (size : Nat) (capacity : Bool → Nat) (greeting : Bool → List Item)

def Wire.left (wire : Wire Item) (side : Bool) : Nat :=
  2 * (wire.party side).unsent.length + (wire.inbox (!side)).length

def Wire.weight (wire : Wire Item) : Nat := wire.left false + wire.left true

theorem weight_sides (wire : Wire Item) (side : Bool) :
    wire.weight = wire.left side + wire.left (!side) := by
  cases side
  · rfl
  · rw [Wire.weight, Nat.add_comm]
    rfl

theorem moved_weight (wire next : Wire Item) (act : Act)
    (moved : Moved size capacity wire act next) : next.weight < wire.weight := by
  cases moved with
  | wrote side count some_items unsent room =>
      rw [weight_sides _ side, weight_sides wire side]
      simp only [Wire.left, write_unsent, write_inbox_other, write_unsent_other, Bool.not_not,
        write_inbox, List.length_drop, List.length_append, List.length_take_of_le unsent]
      omega
  | read side count sent some_items inside wanted =>
      rw [weight_sides _ side, weight_sides wire side]
      simp only [Wire.left, read_unsent, read_inbox_other, Bool.not_not, read_inbox,
        List.length_drop]
      omega

/-- Every step moves something, so no run is longer than the work there is. -/
theorem run_weight (wire finish : Wire Item) (acts : List Act) (notes : List Unit)
    (ran : run (greeters size capacity) wire acts = some (finish, notes)) :
    acts.length + finish.weight ≤ wire.weight := by
  induction acts generalizing wire notes with
  | nil =>
      obtain ⟨rfl, -⟩ := Prod.mk.inj (Option.some.inj ran)
      exact Nat.le_of_eq (Nat.zero_add _)
  | cons act rest ih =>
      obtain ⟨middle, emitted, later, stepped, tail, rfl⟩ := (run_cons_iff _ _ _ _ _ _).mp ran
      have after := ih middle later tail
      have lower := moved_weight size capacity wire middle act
        ((step_iff size capacity wire middle act emitted).mp stepped).1
      rw [List.length_cons]
      omega

def Roomy : Prop := ∃ side, size ≤ capacity side ∧ 0 < capacity (!side)

theorem can_write (wire : Wire Item) (side : Bool) (left : (wire.party side).unsent ≠ [])
    (room : (wire.inbox (!side)).length < capacity (!side)) :
    ∃ act next, Moved size capacity wire act next :=
  ⟨_, _, .wrote side 1 Nat.one_pos (List.length_pos_iff.mpr left) room⟩

theorem can_read (wire : Wire Item) (side : Bool) (sent : (wire.party side).unsent = [])
    (some_items : wire.inbox side ≠ []) (short : (wire.party side).got.length < size) :
    ∃ act next, Moved size capacity wire act next :=
  ⟨_, _, .read side 1 (by rw [sent]; rfl) Nat.one_pos (List.length_pos_iff.mpr some_items) short⟩

theorem can_move (sized : ∀ side, (greeting side).length = size) (roomy : Roomy size capacity)
    (wire : Wire Item) (sane : Sane size capacity greeting wire)
    (unfinished : ¬ ∀ side, wire.Finished size side) :
    ∃ act next, Moved size capacity wire act next := by
  obtain ⟨side, large, some_room⟩ := roomy
  -- `!side` writes towards the large pipe, so it is never kept from writing.
  have there := congrArg List.length (sane.conserved (!side))
  have here := congrArg List.length (sane.conserved side)
  simp only [sized, Bool.not_not, List.length_append] at there here
  by_cases sent : (wire.party (!side)).unsent = []
  · by_cases full : (wire.party (!side)).got.length = size
    · have done : (wire.party side).unsent = [] := List.eq_nil_of_length_eq_zero (by omega)
      have short : (wire.party side).got.length ≠ size := fun same =>
        unfinished (both_sides _ side ⟨done, same⟩ ⟨sent, full⟩)
      have bound := sane.wanted side
      refine can_read size capacity wire side done ?_ (by omega)
      intro empty
      simp only [sent, empty, List.length_nil] at there
      omega
    · have bound := sane.wanted (!side)
      by_cases empty : wire.inbox (!side) = []
      · refine can_write size capacity wire side ?_ (by rw [empty]; exact some_room)
        intro done
        simp only [done, empty, List.length_nil] at here
        omega
      · exact can_read size capacity wire (!side) sent empty (by omega)
  · have positive := List.length_pos_iff.mpr sent
    exact can_write size capacity wire (!side) sent (by rw [Bool.not_not]; omega)

theorem can_finish (sized : ∀ side, (greeting side).length = size) (roomy : Roomy size capacity)
    (wire : Wire Item) (sane : Sane size capacity greeting wire) :
    ∃ acts finish notes, run (greeters size capacity) wire acts = some (finish, notes) ∧
      ∀ side, finish.Finished size side := by
  induction weight : wire.weight using Nat.strongRecOn generalizing wire with
  | _ weight ih =>
      by_cases finished : ∀ side, wire.Finished size side
      · exact ⟨[], wire, [], rfl, finished⟩
      · obtain ⟨act, next, moved⟩ :=
          can_move size capacity greeting sized roomy wire sane finished
        have lower := moved_weight size capacity wire next act moved
        obtain ⟨acts, finish, notes, ran, done⟩ := ih next.weight (by omega) next
          (moved_sane size capacity greeting wire next act sane moved) rfl
        exact ⟨act :: acts, finish, [] ++ notes, (run_cons_iff _ _ _ _ _ _).mpr
          ⟨next, [], notes, (step_iff _ _ _ _ _ _).mpr ⟨moved, rfl⟩, ran, rfl⟩, done⟩

theorem small_never_reads (sized : ∀ side, (greeting side).length = size)
    (small : ∀ side, capacity side < size) (wire next : Wire Item) (act : Act)
    (sane : Sane size capacity greeting wire) (moved : Moved size capacity wire act next)
    (nothing : ∀ side, (wire.party side).got = []) :
    ∀ side, (next.party side).got = [] := by
  cases moved with
  | wrote side count => exact fun other => (write_got wire side count other).trans (nothing other)
  | read side count sent =>
      have whole := congrArg List.length (sane.conserved side)
      simp only [sized, nothing, List.length_append, List.length_nil, sent] at whole
      have room := sane.room (!side)
      have bound := small (!side)
      omega

theorem never_finish (sized : ∀ side, (greeting side).length = size)
    (cramped : ¬ Roomy size capacity) (finish : Wire Item) (acts : List Act) (notes : List Unit)
    (ran : run (greeters size capacity) (Wire.start greeting) acts = some (finish, notes)) :
    ∃ side, (finish.party side).got = [] := by
  by_cases small : ∀ side, capacity side < size
  · have empty := run_state_invariant (greeters size capacity)
      (fun wire => Sane size capacity greeting wire ∧ ∀ side, (wire.party side).got = [])
      (fun state act next notes holds stepped => by
        have moved := ((step_iff size capacity state next act notes).mp stepped).1
        exact ⟨moved_sane size capacity greeting state next act holds.1 moved,
          small_never_reads size capacity greeting sized small state next act holds.1 moved
            holds.2⟩)
      _ finish acts notes ⟨sane_start size capacity greeting, fun _ => rfl⟩ ran
    exact ⟨false, empty.2 false⟩
  · obtain ⟨side, large⟩ := not_forall.mp small
    have closed : capacity (!side) = 0 := Nat.eq_zero_of_not_pos fun some_room =>
      cramped ⟨side, Nat.le_of_not_lt large, some_room⟩
    -- Nothing ever gets through the closed way.
    refine ⟨!side, ?_⟩
    refine (run_state_invariant (greeters size capacity)
      (fun wire => Sane size capacity greeting wire ∧ (wire.party (!side)).got = [])
      (fun state act next notes holds stepped => ?_)
      _ finish acts notes ⟨sane_start size capacity greeting, rfl⟩ ran).2
    have moved := ((step_iff size capacity state next act notes).mp stepped).1
    refine ⟨moved_sane size capacity greeting state next act holds.1 moved, ?_⟩
    have room := holds.1.room (!side)
    cases moved with
    | wrote other count => exact (write_got state other count _).trans holds.2
    | read other count sent some_items inside =>
        by_cases same : other = !side
        · subst same
          omega
        · have here : (!side) = !other := by
            cases other <;> cases side <;> simp_all
          rw [here, read_got_other, ← here]
          exact holds.2

end Progress

end Toolkit.Greeting
