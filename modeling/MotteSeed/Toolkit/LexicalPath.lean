import Mathlib.Data.List.Induction

/-! Unix paths, read lexically. A path is rooted or not and has segments, which may
be empty, a dot or two dots. Resolving a path walks its segments; where a relative
path climbs past its start, the climb is counted. -/
namespace Toolkit.LexicalPath

abbrev Segment := List UInt8

def slash : UInt8 := 47

def here : Segment := [46]

def parentDir : Segment := [46, 46]

structure UnixPath where
  absolute : Bool
  segments : List Segment
  deriving DecidableEq

def isName (segment : Segment) : Bool :=
  segment ≠ [] ∧ segment ≠ here ∧ segment ≠ parentDir

/-- An absolute component replaces the path, any other is appended, separators and
all. Repeated separators are kept as empty segments. -/
def UnixPath.push (path : UnixPath) (component : List UInt8) : UnixPath :=
  match component.splitOn slash with
  | [] :: second :: rest => { absolute := true, segments := second :: rest }
  | segments => { path with segments := path.segments ++ segments }

def UnixPath.join (base path : UnixPath) : UnixPath :=
  if path.absolute then path else { base with segments := base.segments ++ path.segments }

def UnixPath.components (path : UnixPath) : List Segment :=
  path.segments.filter fun segment => segment ≠ [] ∧ segment ≠ here

def UnixPath.parent (path : UnixPath) : Option UnixPath :=
  match path.components with
  | [] => none
  | first :: rest => some { path with segments := (first :: rest).dropLast }

/-- Where a path leads: from the root or the start, so many levels up, then down. -/
structure Location where
  absolute : Bool
  ups : Nat
  names : List Segment
  deriving DecidableEq

def walk (location : Location) (segment : Segment) : Location :=
  if segment = [] ∨ segment = here then location
  else if segment = parentDir then
    if location.names ≠ [] then { location with names := location.names.dropLast }
    else if location.absolute then location
    else { location with ups := location.ups + 1 }
  else { location with names := location.names ++ [segment] }

def walkAll (location : Location) (segments : List Segment) : Location :=
  segments.foldl walk location

def UnixPath.resolve (path : UnixPath) : Location := walkAll ⟨path.absolute, 0, []⟩ path.segments

def Below (base location : Location) : Prop :=
  location.absolute = base.absolute ∧ location.ups = base.ups ∧ base.names <+: location.names

def StrictlyBelow (base location : Location) : Prop :=
  Below base location ∧ location ≠ base

theorem walk_all_append (location : Location) (first second : List Segment) :
    walkAll location (first ++ second) = walkAll (walkAll location first) second :=
  List.foldl_append

theorem walk_name (location : Location) (segment : Segment) (name : isName segment = true) :
    walk location segment = { location with names := location.names ++ [segment] } := by
  simp only [isName, ne_eq, decide_eq_true_eq] at name
  rw [walk, if_neg (by simp [name.1, name.2.1]), if_neg name.2.2]

theorem walk_components (location : Location) (segments : List Segment) :
    walkAll location (segments.filter fun segment => segment ≠ [] ∧ segment ≠ here) =
      walkAll location segments := by
  induction segments generalizing location with
  | nil => rfl
  | cons segment rest ih =>
      by_cases kept : segment ≠ [] ∧ segment ≠ here
      · rw [List.filter_cons_of_pos (by simpa using kept)]
        exact ih (walk location segment)
      · have skipped : walk location segment = location := by
          rw [walk, if_pos (by
            by_contra other
            exact kept (not_or.mp other))]
        rw [List.filter_cons_of_neg (by simpa using kept), ih]
        simp only [walkAll, List.foldl_cons, skipped]

theorem resolve_components (path : UnixPath) :
    walkAll ⟨path.absolute, 0, []⟩ path.components = path.resolve :=
  walk_components _ path.segments

theorem walk_parent (location : Location) (inside : location.names ≠ []) :
    walk location parentDir = { location with names := location.names.dropLast } := by
  rw [walk, if_neg (by decide), if_pos rfl, if_pos inside]

theorem walk_skip (location : Location) (segment : Segment)
    (skipped : segment = [] ∨ segment = here) : walk location segment = location := by
  rw [walk, if_pos skipped]

theorem segment_cases (segment : Segment) :
    (segment = [] ∨ segment = here) ∨ segment = parentDir ∨ isName segment = true := by
  by_cases skipped : segment = [] ∨ segment = here
  · exact Or.inl skipped
  · by_cases climbs : segment = parentDir
    · exact Or.inr (Or.inl climbs)
    · rw [not_or] at skipped
      exact Or.inr (Or.inr (by simp [isName, skipped.1, skipped.2, climbs]))

theorem push_join (base path : UnixPath) (component : List UInt8) :
    (base.join path).push component = base.join (path.push component) := by
  unfold UnixPath.push
  split
  · rfl
  · unfold UnixPath.join
    by_cases rooted : path.absolute
    · rw [if_pos rooted, if_pos rooted]
    · rw [if_neg rooted, if_neg rooted, List.append_assoc]

theorem join_relative (base path : UnixPath) (relative : path.absolute = false) :
    base.join path = { base with segments := base.segments ++ path.segments } := by
  rw [UnixPath.join, relative]
  rfl

theorem join_absolute (base path : UnixPath) (rooted : path.absolute = true) :
    base.join path = path := if_pos rooted

theorem components_join (base path : UnixPath) (relative : path.absolute = false) :
    (base.join path).components = base.components ++ path.components := by
  rw [join_relative base path relative]
  exact List.filter_append _ _

theorem components_kept (path : UnixPath) (segments : List Segment)
    (cut : segments <+: path.components) :
    ({ path with segments := segments } : UnixPath).components = segments := by
  apply List.filter_eq_self.mpr
  intro segment member
  exact (List.mem_filter.mp (cut.subset member)).2

theorem parent_eq_some_iff (path parent : UnixPath) : path.parent = some parent ↔
    path.components ≠ [] ∧ parent = { path with segments := path.components.dropLast } := by
  unfold UnixPath.parent
  cases held : path.components with
  | nil => simp
  | cons first rest =>
      constructor
      · rintro ⟨⟩
        exact ⟨List.cons_ne_nil first rest, rfl⟩
      · rintro ⟨-, rfl⟩
        rfl

theorem walk_absolute (location : Location) (segment : Segment) :
    (walk location segment).absolute = location.absolute := by
  unfold walk
  split
  · rfl
  · split
    · split
      · rfl
      · split <;> rfl
    · rfl

theorem walk_all_absolute (location : Location) (segments : List Segment) :
    (walkAll location segments).absolute = location.absolute := by
  induction segments generalizing location with
  | nil => rfl
  | cons segment rest ih => exact (ih (walk location segment)).trans (walk_absolute _ _)

theorem walk_all_named (location : Location) (segments : List Segment)
    (named : ∀ segment ∈ segments, isName segment = true) :
    walkAll location segments = { location with names := location.names ++ segments } := by
  induction segments generalizing location with
  | nil => simp [walkAll]
  | cons segment rest ih =>
      have moved := walk_name location segment (named segment List.mem_cons_self)
      have walked := ih { location with names := location.names ++ [segment] }
        fun other member => named other (List.mem_cons_of_mem segment member)
      rw [List.append_cons, ← walked, ← moved]
      rfl

theorem walk_all_names (location : Location) (segments : List Segment)
    (named : segments.getLast?.any isName = true) :
    (walkAll location segments).names ≠ [] := by
  cases segments using List.reverseRecOn with
  | nil => cases named
  | append_singleton earlier last =>
      rw [List.getLast?_concat] at named
      have moved : walkAll location (earlier ++ [last]) =
          walk (walkAll location earlier) last := walk_all_append location earlier [last]
      rw [moved, walk_name _ last named]
      simp

/-- A walk that never climbs past its start can be taken from anywhere. -/
theorem walk_inside (start : Location) (segments : List Segment) (names : List Segment)
    (inside : walkAll ⟨false, 0, []⟩ segments = ⟨false, 0, names⟩) :
    walkAll start segments = { start with names := start.names ++ names } := by
  induction segments using List.reverseRecOn generalizing names with
  | nil =>
      obtain rfl : names = [] := by simpa [walkAll] using inside.symm
      simp [walkAll]
  | append_singleton earlier segment ih =>
      rw [walk_all_append] at inside ⊢
      cases reached : walkAll ⟨false, 0, []⟩ earlier with
      | mk absolute ups held =>
          rw [reached] at inside
          change walk ⟨absolute, ups, held⟩ segment = _ at inside
          change walk (walkAll start earlier) segment = _
          rcases segment_cases segment with skipped | rfl | name
          · rw [walk_skip _ _ skipped] at inside ⊢
            obtain ⟨rfl, rfl, rfl⟩ := by simpa using inside
            exact ih held reached
          · by_cases within : held ≠ []
            · rw [walk_parent ⟨absolute, ups, held⟩ within] at inside
              obtain ⟨rfl, rfl, rfl⟩ := by simpa using inside
              rw [ih held reached, walk_parent _ (by simp [within])]
              simp [List.dropLast_append_of_ne_nil within]
            · -- Climbing from the start would be counted.
              exfalso
              rw [walk, if_neg (by decide), if_pos rfl, if_neg within] at inside
              cases absolute <;> simp at inside
          · rw [walk_name _ _ name] at inside
            obtain ⟨rfl, rfl, rfl⟩ := by simpa using inside
            rw [ih held reached, walk_name _ _ name]
            simp

end Toolkit.LexicalPath
