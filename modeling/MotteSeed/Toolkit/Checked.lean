import Mathlib.Data.Nat.Basic
import Mathlib.Algebra.Group.Nat.Defs

/-! Fixed-width unsigned arithmetic over `Nat`, under either build profile. A
checked build stops at an overflow; a wrapping build continues with the value
modulo the width. Calls whose exact result fits agree in both profiles. -/
namespace Toolkit.Checked

inductive Profile where
  | checked
  | wrapping
  deriving DecidableEq

/-- How a call can fail: a panic of the arithmetic or of an index, or an
error value that the function itself returns. -/
inductive Fault (ε : Type) where
  | overflow
  | bounds
  | error (reason : ε)
  deriving DecidableEq

variable {ε : Type}

def Profile.narrow (profile : Profile) (width value : Nat) : Except (Fault ε) Nat :=
  if value < 2 ^ width then .ok value
  else match profile with
    | .checked => .error .overflow
    | .wrapping => .ok (value % 2 ^ width)

def Profile.add (profile : Profile) (width a b : Nat) : Except (Fault ε) Nat :=
  profile.narrow width (a + b)

def Profile.mul (profile : Profile) (width a b : Nat) : Except (Fault ε) Nat :=
  profile.narrow width (a * b)

def Profile.sub (profile : Profile) (width a b : Nat) : Except (Fault ε) Nat :=
  if b ≤ a then .ok (a - b)
  else match profile with
    | .checked => .error .overflow
    | .wrapping => .ok ((a + 2 ^ width - b) % 2 ^ width)

theorem bind_ok_iff {α β : Type} (call : Except ε α) (next : α → Except ε β) (result : β) :
    (call >>= next) = .ok result ↔ ∃ value, call = .ok value ∧ next value = .ok result := by
  cases call with
  | error fault => simp [bind, Except.bind]
  | ok value => simp [bind, Except.bind]

theorem map_ok_mem {α β : Type} (decode : α → Except ε β) (items : List α) (results : List β)
    (ran : items.mapM decode = .ok results) (result : β) (member : result ∈ results) :
    ∃ item ∈ items, decode item = .ok result := by
  induction items generalizing results with
  | nil =>
      cases ran
      cases member
  | cons item rest ih =>
      simp only [List.mapM_cons, bind_ok_iff, pure, Except.pure, Except.ok.injEq] at ran
      obtain ⟨first, decoded, others, tail, rfl⟩ := ran
      rcases List.mem_cons.mp member with rfl | later
      · exact ⟨item, List.mem_cons_self, decoded⟩
      · obtain ⟨found, inside, same⟩ := ih others tail later
        exact ⟨found, List.mem_cons_of_mem item inside, same⟩

@[simp] theorem add_exact (profile : Profile) (width a b : Nat) (fits : a + b < 2 ^ width) :
    (profile.add width a b : Except (Fault ε) Nat) = .ok (a + b) := by
  simp [Profile.add, Profile.narrow, fits]

@[simp] theorem mul_exact (profile : Profile) (width a b : Nat) (fits : a * b < 2 ^ width) :
    (profile.mul width a b : Except (Fault ε) Nat) = .ok (a * b) := by
  simp [Profile.mul, Profile.narrow, fits]

@[simp] theorem sub_exact (profile : Profile) (width a b : Nat) (ordered : b ≤ a) :
    (profile.sub width a b : Except (Fault ε) Nat) = .ok (a - b) := by
  simp [Profile.sub, ordered]

end Toolkit.Checked
