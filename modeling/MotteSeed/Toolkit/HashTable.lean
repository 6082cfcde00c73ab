import Mathlib.Data.List.AList

/-! Hash maps as association lists with distinct keys. Lookup and update do not
depend on the order of the entries; the calls that iterate take the order as an
argument, so their laws hold for every order that a hasher may produce. -/
namespace Toolkit.HashTable

variable {K V : Type}

abbrev HashMap (K V : Type) := AList (fun _ : K => V)

abbrev Entry (K V : Type) := Sigma (fun _ : K => V)

/-- One iteration of a map: some permutation of its entries. -/
structure IterOrder (α : Type) where
  arrange : List α → List α
  perm : ∀ items, (arrange items).Perm items

instance {α : Type} : Inhabited (IterOrder α) := ⟨⟨id, fun _ => .refl _⟩⟩

def IterOrder.startingAt {α : Type} [DecidableEq α] (item : α) : IterOrder α where
  arrange items := if item ∈ items then item :: items.erase item else items
  perm items := by
    split
    · rename_i member
      exact (List.perm_cons_erase member).symm
    · exact .refl items

def changeEntry (change : K → V → V) : Entry K V → Entry K V := Sigma.map id change

theorem keys_change_entry (change : K → V → V) (entries : List (Entry K V)) :
    (entries.map (changeEntry change)).keys = entries.keys := by
  rw [List.keys, List.map_map]
  exact List.map_congr_left fun ⟨_, _⟩ _ => rfl

def mapEntries (change : K → V → V) (map : HashMap K V) : HashMap K V :=
  ⟨map.entries.map (changeEntry change), by
    rw [List.NodupKeys, keys_change_entry]
    exact map.nodupKeys⟩

def modify [DecidableEq K] (map : HashMap K V) (key : K) (change : V → V) : HashMap K V :=
  mapEntries (fun k value => if k = key then change value else value) map

def values (map : HashMap K V) : List V := map.entries.map Sigma.snd

def firstEntry (order : IterOrder (Entry K V)) (wanted : V → Bool) (map : HashMap K V) :
    Option (Entry K V) :=
  (order.arrange map.entries).find? fun entry => wanted entry.2

def collect [DecidableEq K] {W : Type} (order : IterOrder (Entry K V)) (pick : K → V → Option W)
    (map : HashMap K V) : HashMap K W :=
  (order.arrange map.entries).foldl (fun made entry =>
    match pick entry.1 entry.2 with
    | some picked => made.insert entry.1 picked
    | none => made) ∅

section Lookup
variable [DecidableEq K]

@[simp] theorem lookup_map_entries (change : K → V → V) (map : HashMap K V) (key : K) :
    (mapEntries change map).lookup key = (map.lookup key).map (change key) :=
  List.dlookup_map₂ key

theorem lookup_modify_self (map : HashMap K V) (key : K) (change : V → V) :
    (modify map key change).lookup key = (map.lookup key).map change := by
  simp [modify]

theorem lookup_modify_ne (map : HashMap K V) (key other : K) (change : V → V)
    (different : other ≠ key) :
    (modify map key change).lookup other = map.lookup other := by
  simp [modify, different]

theorem lookup_modify_isSome (map : HashMap K V) (key other : K) (change : V → V) :
    ((modify map key change).lookup other).isSome = (map.lookup other).isSome := by
  simp [modify]

theorem lookup_modify_some (map : HashMap K V) (key other : K) (change : V → V) (value : V)
    (found : (modify map key change).lookup other = some value) :
    (other = key ∧ ∃ old, map.lookup key = some old ∧ value = change old) ∨
      (other ≠ key ∧ map.lookup other = some value) := by
  by_cases same : other = key
  · subst same
    rw [lookup_modify_self] at found
    obtain ⟨old, present, rfl⟩ := Option.map_eq_some_iff.mp found
    exact Or.inl ⟨rfl, old, present, rfl⟩
  · rw [lookup_modify_ne map key other change same] at found
    exact Or.inr ⟨same, found⟩

theorem map_entries_self (change : K → V → V) (map : HashMap K V)
    (same : ∀ key value, map.lookup key = some value → change key value = value) :
    mapEntries change map = map := by
  apply AList.ext
  calc map.entries.map (changeEntry change)
    _ = map.entries.map id := by
        apply List.map_congr_left
        intro entry member
        exact congrArg (Sigma.mk entry.1) (same entry.1 entry.2 (AList.mem_lookup_iff.mpr member))
    _ = map.entries := List.map_id _

theorem modify_self (map : HashMap K V) (key : K) (change : V → V)
    (same : ∀ value, map.lookup key = some value → change value = value) :
    modify map key change = map := by
  apply map_entries_self
  intro other value found
  by_cases here : other = key
  · subst here
    rw [if_pos rfl, same value found]
  · rw [if_neg here]

theorem lookup_iff_entry (map : HashMap K V) (key : K) (value : V) :
    map.lookup key = some value ↔ (⟨key, value⟩ : Entry K V) ∈ map.entries :=
  AList.mem_lookup_iff

theorem collect_entries {W : Type} (pick : K → V → Option W) (entries : List (Entry K V))
    (distinct : entries.NodupKeys) (made : HashMap K W) (key : K) :
    (entries.foldl (fun made entry =>
        match pick entry.1 entry.2 with
        | some picked => made.insert entry.1 picked
        | none => made) made).lookup key =
      ((entries.dlookup key).bind (pick key)).or (made.lookup key) := by
  induction entries generalizing made with
  | nil => rfl
  | cons entry rest ih =>
      obtain ⟨first, value⟩ := entry
      obtain ⟨absent, later⟩ := List.nodupKeys_cons.mp distinct
      rw [List.foldl_cons, ih later]
      by_cases here : key = first
      · subst here
        rw [List.dlookup_eq_none.mpr absent, List.dlookup_cons_eq]
        cases picks : pick key value with
        | some picked => simp [picks]
        | none => simp [picks]
      · rw [List.dlookup_cons_ne _ _ here]
        cases pick first value with
        | some picked => rw [AList.lookup_insert_ne here]
        | none => rfl

theorem lookup_collect {W : Type} (order : IterOrder (Entry K V)) (pick : K → V → Option W)
    (map : HashMap K V) (key : K) :
    (collect order pick map).lookup key = (map.lookup key).bind (pick key) := by
  have distinct : (order.arrange map.entries).NodupKeys :=
    (List.perm_nodupKeys (order.perm map.entries)).mpr map.nodupKeys
  rw [collect, collect_entries pick _ distinct, AList.lookup_empty, Option.or_none,
    List.perm_dlookup key distinct (order.perm map.entries)]
  rfl

theorem mem_values_iff (map : HashMap K V) (value : V) :
    value ∈ values map ↔ ∃ key, map.lookup key = some value := by
  simp only [values, List.mem_map, lookup_iff_entry]
  constructor
  · rintro ⟨⟨key, found⟩, member, rfl⟩
    exact ⟨key, member⟩
  · rintro ⟨key, member⟩
    exact ⟨⟨key, value⟩, member, rfl⟩

theorem all_values_iff (map : HashMap K V) (wanted : V → Bool) :
    (values map).all wanted = true ↔
      ∀ key value, map.lookup key = some value → wanted value = true := by
  simp only [List.all_eq_true, mem_values_iff]
  constructor
  · intro every key value found
    exact every value ⟨key, found⟩
  · rintro every value ⟨key, found⟩
    exact every key value found

theorem first_entry_some (order : IterOrder (Entry K V)) (wanted : V → Bool)
    (map : HashMap K V) (entry : Entry K V) (found : firstEntry order wanted map = some entry) :
    map.lookup entry.1 = some entry.2 ∧ wanted entry.2 = true := by
  have member := (order.perm map.entries).mem_iff.mp (List.mem_of_find?_eq_some found)
  exact ⟨(lookup_iff_entry map entry.1 entry.2).mpr member,
    by simpa using List.find?_some found⟩

theorem first_entry_none (order : IterOrder (Entry K V)) (wanted : V → Bool)
    (map : HashMap K V) (absent : firstEntry order wanted map = none)
    (key : K) (value : V) (found : map.lookup key = some value) : wanted value = false := by
  have member := (order.perm map.entries).mem_iff.mpr ((lookup_iff_entry map key value).mp found)
  simpa using List.find?_eq_none.mp absent ⟨key, value⟩ member

theorem first_entry_starting_at [DecidableEq V] (wanted : V → Bool) (map : HashMap K V) (key : K)
    (value : V) (found : map.lookup key = some value) (chosen : wanted value = true) :
    firstEntry (IterOrder.startingAt ⟨key, value⟩) wanted map = some ⟨key, value⟩ := by
  have member := (lookup_iff_entry map key value).mp found
  simp only [firstEntry, IterOrder.startingAt, if_pos member]
  exact List.find?_cons_of_pos chosen

theorem count_entries_le_one (map : HashMap K V) (wanted : V → Bool)
    (unique : ∀ first second value other, map.lookup first = some value →
      map.lookup second = some other → wanted value = true → wanted other = true →
      first = second) :
    map.entries.countP (fun entry => wanted entry.2) ≤ 1 := by
  rw [List.countP_eq_length_filter]
  have distinct : (map.entries.filter fun entry => wanted entry.2).NodupKeys :=
    map.nodupKeys.sublist List.filter_sublist
  match chosen : map.entries.filter fun entry => wanted entry.2 with
  | [] | [_] => simp [chosen]
  | first :: second :: rest =>
      have there : ∀ entry ∈ [first, second],
          map.lookup entry.1 = some entry.2 ∧ wanted entry.2 = true := by
        intro entry member
        have kept : entry ∈ map.entries.filter fun entry => wanted entry.2 := by
          rw [chosen]
          exact (List.prefix_append [first, second] rest).subset member
        obtain ⟨inside, wants⟩ := List.mem_filter.mp kept
        exact ⟨(lookup_iff_entry map entry.1 entry.2).mpr inside, wants⟩
      have one := there first (by simp)
      have two := there second (by simp)
      rw [chosen] at distinct
      have same := unique first.1 second.1 first.2 second.2 one.1 two.1 one.2 two.2
      exact ((List.nodupKeys_cons.mp distinct).1 (by simp [same])).elim

end Lookup

end Toolkit.HashTable
