import MotteSeed.Disk
import Mathlib.Data.List.Infix

/-! Where `DiskIO::new` creates, opens and resizes. The components of an entry's path
come from the torrent as they are, so the files of some torrents lie outside the base
directory. -/
namespace MotteSeed.DiskPaths
open Toolkit.Checked Toolkit.LexicalPath PeerWire TorrentMeta Disk

/-- A created directory is at or below the base, a file is below it. -/
def Confined (base : UnixPath) : FsOp → Prop
  | .createDir path => Below base.resolve path.resolve
  | .openFile path => StrictlyBelow base.resolve path.resolve
  | .setLen path _ => StrictlyBelow base.resolve path.resolve

def target (entry : FileEntry) : Option UnixPath := entryPath ⟨false, []⟩ entry.path

def namesFile (path : UnixPath) : Bool := usable path ∧ path.segments.getLast?.any isName

/-- The entries up to the first one that no host can open. -/
def reached : List FileEntry → List FileEntry
  | [] => []
  | entry :: rest => entry :: if (target entry).any namesFile then reached rest else []

def directories (path : UnixPath) : List (List Segment) :=
  match path.parent with
  | some parent => if usable parent then (ancestors parent).map UnixPath.segments else []
  | none => []

/-- The path is relative, and on the way `..` never outnumbers the names before it. -/
def Inside (path : UnixPath) (segments : List Segment) : Prop :=
  path.absolute = false ∧ (walkAll ⟨false, 0, []⟩ segments).ups = 0

def Safe (entry : FileEntry) : Prop :=
  ∀ path, target entry = some path →
    (∀ segments ∈ directories path, Inside path segments) ∧
      (namesFile path = true → Inside path path.components)

section Operations

theorem create_missing_ops (host : Host) (paths : List UnixPath) (op : FsOp)
    (made : op ∈ (createMissing host paths).1) : ∃ path ∈ paths, op = .createDir path := by
  induction paths with
  | nil => cases made
  | cons path rest ih =>
      unfold createMissing at made
      split at made
      · rcases List.mem_cons.mp made with rfl | later
        · exact ⟨path, List.mem_cons_self, rfl⟩
        · obtain ⟨found, member, same⟩ := ih later
          exact ⟨found, List.mem_cons_of_mem path member, same⟩
      · obtain ⟨found, member, same⟩ := ih made
        exact ⟨found, List.mem_cons_of_mem path member, same⟩
      · cases made

theorem mem_ancestors (path ancestor : UnixPath) : ancestor ∈ ancestors path ↔
    ∃ segments, segments <+: path.components ∧ segments.getLast?.any isName = true ∧
      ancestor = { path with segments := segments } := by
  simp only [ancestors, List.mem_map, List.mem_filter, List.mem_inits]
  constructor
  · rintro ⟨segments, ⟨cut, named⟩, rfl⟩
    exact ⟨segments, cut, named, rfl⟩
  · rintro ⟨segments, cut, named, rfl⟩
    exact ⟨segments, ⟨cut, named⟩, rfl⟩

theorem mem_directories (path : UnixPath) (segments : List Segment) :
    segments ∈ directories path ↔ path.components ≠ [] ∧
      usable { path with segments := path.components.dropLast } = true ∧
      segments <+: path.components.dropLast ∧ segments.getLast?.any isName = true := by
  have kept := components_kept path path.components.dropLast (List.dropLast_prefix _)
  unfold directories
  split
  · rename_i parent above
    obtain ⟨some, rfl⟩ := (parent_eq_some_iff path parent).mp above
    split
    · rename_i clean
      simp only [List.mem_map, mem_ancestors, kept]
      constructor
      · rintro ⟨ancestor, ⟨found, cut, named, rfl⟩, rfl⟩
        exact ⟨some, clean, cut, named⟩
      · rintro ⟨-, -, cut, named⟩
        exact ⟨_, ⟨segments, cut, named, rfl⟩, rfl⟩
    · rename_i dirty
      constructor
      · intro absurd
        cases absurd
      · rintro ⟨-, clean, -⟩
        exact (dirty clean).elim
  · rename_i above
    constructor
    · intro absurd
      cases absurd
    · rintro ⟨some, -⟩
      have found := (parent_eq_some_iff path _).mpr ⟨some, rfl⟩
      rw [above] at found
      cases found

theorem create_parents_ops (host : Host) (base filePath : UnixPath) (op : FsOp)
    (made : op ∈ (createParents host base filePath).1) :
    ∃ segments ∈ directories filePath,
      standing base { filePath with segments := segments } = false ∧
        op = .createDir { filePath with segments := segments } := by
  unfold createParents at made
  split at made
  · rename_i parent above
    obtain ⟨some, rfl⟩ := (parent_eq_some_iff filePath parent).mp above
    have kept := components_kept filePath filePath.components.dropLast (List.dropLast_prefix _)
    unfold createDirAll at made
    split at made
    · rename_i clean
      obtain ⟨ancestor, member, rfl⟩ := create_missing_ops host _ op made
      obtain ⟨member, fresh⟩ := List.mem_filter.mp member
      obtain ⟨segments, cut, named, rfl⟩ := (mem_ancestors _ ancestor).mp member
      rw [kept] at cut
      exact ⟨segments, (mem_directories filePath segments).mpr ⟨some, clean, cut, named⟩,
        by simpa using fresh, rfl⟩
    · cases made
  · cases made

theorem open_sized_ops (host : Host) (known : UnixPath → Bool) (path : UnixPath) (length : Nat)
    (op : FsOp) (made : op ∈ (openSized host known path length).1) :
    openable known path = true ∧ (op = .openFile path ∨ op = .setLen path length) := by
  unfold openSized at made
  split at made
  · rename_i opened
    refine ⟨opened.1, ?_⟩
    split at made
    · simpa using made
    · exact Or.inl (List.mem_singleton.mp made)
  · cases made

theorem open_entry_ops (host : Host) (base : UnixPath) (entry : FileEntry) (op : FsOp)
    (made : op ∈ (openEntry host base entry).1) :
    ∃ filePath, entryPath base entry.path = some filePath ∧
      (op ∈ (createParents host base filePath).1 ∨
        op ∈ (openSized host (standing base) filePath entry.length).1) := by
  unfold openEntry at made
  split at made
  · cases made
  · rename_i filePath located
    dsimp only at made
    split at made
    · exact ⟨filePath, located, List.mem_append.mp made⟩
    · exact ⟨filePath, located, Or.inl made⟩

end Operations

section Bases

/-- The path of an entry under a base is its target, read from the base. -/
theorem entry_path_join (base path : UnixPath) (components : List Bytes) :
    entryPath (base.join path) components = (entryPath path components).map base.join := by
  induction components generalizing path with
  | nil => rfl
  | cons component rest ih =>
      unfold entryPath
      split
      · rw [push_join, ih]
      · rfl

theorem entry_path_target (base : UnixPath) (entry : FileEntry) :
    entryPath base entry.path = (target entry).map base.join := by
  have start : base.join ⟨false, []⟩ = base := by
    rw [join_relative _ _ rfl, List.append_nil]
  have joined := entry_path_join base ⟨false, []⟩ entry.path
  rwa [start] at joined

theorem standing_components (base path : UnixPath) (segments : List Segment)
    (same : path.absolute = base.absolute) (cut : segments <+: path.components) :
    standing base { path with segments := segments } = true ↔ segments <+: base.components := by
  unfold standing
  rw [components_kept path segments cut]
  simp [same]

theorem directories_join (base path : UnixPath) (relative : path.absolute = false)
    (segments : List Segment) (member : segments ∈ directories (base.join path))
    (fresh : standing base { base.join path with segments := segments } = false) :
    ∃ inner ∈ directories path, segments = base.components ++ inner := by
  obtain ⟨-, clean, cut, named⟩ := (mem_directories _ segments).mp member
  have held := standing_components base (base.join path) segments
    (by rw [join_relative base path relative]) (cut.trans (List.dropLast_prefix _))
  rw [components_join base path relative] at cut clean
  have new : ¬ segments <+: base.components := by
    rw [← held, fresh]
    exact Bool.false_ne_true
  have some : path.components ≠ [] := by
    intro none
    rw [none, List.append_nil] at cut
    exact new (cut.trans (List.dropLast_prefix _))
  rw [List.dropLast_append_of_ne_nil some] at cut clean
  -- A prefix of the joined path ends in the base, where it was there, or goes on behind it.
  rcases List.prefix_or_prefix_of_prefix cut (List.prefix_append base.components _)
    with within | behind
  · exact (new within).elim
  · obtain ⟨inner, rfl⟩ := behind
    rw [List.prefix_append_right_inj] at cut
    refine ⟨inner, (mem_directories path inner).mpr ⟨some, ?_, cut, ?_⟩, rfl⟩
    · simp only [usable, List.all_append, Bool.and_eq_true] at clean ⊢
      exact clean.2
    · have deeper : inner ≠ [] := by
        rintro rfl
        rw [List.append_nil] at new
        exact new (List.prefix_refl _)
      rwa [List.getLast?_append_of_ne_nil _ deeper] at named

theorem openable_names_file (base path : UnixPath)
    (opened : openable (standing base) (base.join path) = true) : namesFile path = true := by
  simp only [openable, Bool.not_eq_true', decide_eq_true_eq] at opened
  obtain ⟨clean, named, fresh⟩ := opened
  cases rooted : path.absolute with
  | true =>
      rw [join_absolute base path rooted] at clean named
      exact decide_eq_true ⟨clean, named⟩
  | false =>
      rw [join_relative base path rooted] at clean named fresh
      have some : path.segments ≠ [] := by
        intro none
        rw [none, List.append_nil] at fresh
        simp [standing] at fresh
      rw [List.getLast?_append_of_ne_nil _ some] at named
      simp only [usable, List.all_append, Bool.and_eq_true] at clean
      exact decide_eq_true ⟨clean.2, named⟩

end Bases

section Confinement

theorem inside_resolve (base path : UnixPath) (segments : List Segment)
    (inside : Inside path segments) : ∃ names,
      walkAll ⟨false, 0, []⟩ segments = ⟨false, 0, names⟩ ∧
        walkAll base.resolve segments =
          { base.resolve with names := base.resolve.names ++ names } := by
  obtain ⟨-, level⟩ := inside
  have relative := walk_all_absolute ⟨false, 0, []⟩ segments
  cases walked : walkAll ⟨false, 0, []⟩ segments with
  | mk absolute ups names =>
      rw [walked] at level relative
      obtain rfl : absolute = false := relative
      obtain rfl : ups = 0 := level
      exact ⟨names, rfl, walk_inside base.resolve segments names walked⟩

theorem below_names (base : Location) (names : List Segment) :
    Below base { base with names := base.names ++ names } :=
  ⟨rfl, rfl, List.prefix_append _ _⟩

/-- What is done for a safe entry stays in the base directory. -/
theorem safe_entry_confined (host : Host) (base : UnixPath) (entry : FileEntry) (safe : Safe entry)
    (op : FsOp) (made : op ∈ (openEntry host base entry).1) : Confined base op := by
  obtain ⟨filePath, located, made⟩ := open_entry_ops host base entry op made
  rw [entry_path_target, Option.map_eq_some_iff] at located
  obtain ⟨path, found, rfl⟩ := located
  obtain ⟨parents, file⟩ := safe path found
  have start : ∀ segments, walkAll ⟨base.absolute, 0, []⟩ (base.components ++ segments) =
      walkAll base.resolve segments := by
    intro segments
    rw [walk_all_append, resolve_components]
  rcases made with parent | opened
  · obtain ⟨segments, member, fresh, rfl⟩ := create_parents_ops host base _ op parent
    cases rooted : path.absolute with
    | true =>
        rw [join_absolute base path rooted] at member
        have relative := (parents segments member).1
        rw [rooted] at relative
        cases relative
    | false =>
        obtain ⟨inner, held, rfl⟩ := directories_join base path rooted segments member fresh
        obtain ⟨names, -, walked⟩ := inside_resolve base path inner (parents inner held)
        have landed :
            UnixPath.resolve { base.join path with segments := base.components ++ inner } =
              { base.resolve with names := base.resolve.names ++ names } := by
          rw [join_relative base path rooted, ← walked]
          exact start inner
        rw [Confined, landed]
        exact below_names _ names
  · obtain ⟨openable, operation⟩ := open_sized_ops host (standing base) _ _ op opened
    have named := openable_names_file base path openable
    have inside := file named
    have below : StrictlyBelow base.resolve (base.join path).resolve := by
      obtain ⟨names, alone, walked⟩ := inside_resolve base path path.components inside
      have relative := inside.1
      have landed : (base.join path).resolve =
          { base.resolve with names := base.resolve.names ++ names } := by
        rw [← resolve_components, components_join base path relative,
          join_relative base path relative, ← walked]
        exact start path.components
      rw [landed]
      refine ⟨below_names _ names, ?_⟩
      intro same
      have longer := congrArg Location.names same
      have none := List.append_right_eq_self.mp longer
      simp only [namesFile, decide_eq_true_eq] at named
      -- A path that ends in a name does not come back to where it started.
      apply walk_all_names ⟨false, 0, []⟩ path.segments named.2
      have ends := walk_components ⟨false, 0, []⟩ path.segments
      rw [← ends]
      exact (congrArg Location.names alone).trans none
    rcases operation with rfl | rfl
    · exact below
    · exact below

theorem opened_names_file (host : Host) (base : UnixPath) (entry : FileEntry) (ops : List FsOp)
    (file : Bytes) (opened : openEntry host base entry = (ops, .ok file)) :
    (target entry).any namesFile = true := by
  unfold openEntry at opened
  split at opened
  · cases opened
  · rename_i filePath located
    rw [entry_path_target, Option.map_eq_some_iff] at located
    obtain ⟨path, found, rfl⟩ := located
    dsimp only at opened
    split at opened
    · have result := (Prod.mk.inj opened).2
      unfold openSized at result
      split at result
      · rename_i sized
        rw [found]
        exact openable_names_file base path sized.1
      · cases result
    · cases opened

theorem open_entries_ops (profile : Profile) (host : Host) (base : UnixPath)
    (entries : List FileEntry) (files : List Bytes) (totalSize : Nat) (op : FsOp)
    (made : op ∈ (openEntries profile host base entries files totalSize).1) :
    ∃ entry ∈ reached entries, op ∈ (openEntry host base entry).1 := by
  induction entries generalizing files totalSize with
  | nil => cases made
  | cons entry rest ih =>
      unfold openEntries at made
      split at made
      · rename_i ops fault first
        exact ⟨entry, List.mem_cons_self, by rwa [first]⟩
      · rename_i ops file first
        have own : op ∈ ops → ∃ other ∈ reached (entry :: rest),
            op ∈ (openEntry host base other).1 :=
          fun member => ⟨entry, List.mem_cons_self, by rwa [first]⟩
        split at made
        · exact own made
        · rename_i total _
          rcases List.mem_append.mp made with member | later
          · exact own member
          · obtain ⟨other, member, there⟩ := ih (files ++ [file]) total later
            refine ⟨other, ?_, there⟩
            rw [reached, if_pos (opened_names_file host base entry ops file first)]
            exact List.mem_cons_of_mem entry member

end Confinement

section Escape

def freeHost : Host :=
  { mkdir := fun _ => .created
    opens := fun _ => true
    resizes := fun _ _ => true
    content := fun _ => [] }

theorem create_missing_free (paths : List UnixPath) :
    createMissing freeHost paths = (paths.map FsOp.createDir, true) := by
  induction paths with
  | nil => rfl
  | cons path rest ih =>
      have made : freeHost.mkdir path = .created := rfl
      simp only [createMissing, made, ih, List.map_cons]

theorem create_dir_all_free (known : UnixPath → Bool) (path : UnixPath)
    (clean : usable path = true) :
    createDirAll freeHost known path =
      (((ancestors path).filter fun ancestor => !known ancestor).map FsOp.createDir, true) := by
  rw [createDirAll, if_pos clean, create_missing_free]

theorem standing_empty (path : UnixPath) (some : path.components ≠ []) :
    standing ⟨false, []⟩ path = false := by
  have none : path.components.isPrefixOf [] = false := by
    cases held : path.components with
    | nil => exact (some held).elim
    | cons first rest => rfl
  have held : (UnixPath.mk false []).components = [] := rfl
  simp [standing, held, none]

theorem directory_created (path : UnixPath) (segments : List Segment)
    (member : segments ∈ directories path) :
    .createDir { path with segments := segments } ∈
      (createParents freeHost ⟨false, []⟩ path).1 := by
  obtain ⟨some, clean, cut, named⟩ := (mem_directories path segments).mp member
  have above := (parent_eq_some_iff path _).mpr ⟨some, rfl⟩
  have kept := components_kept path path.components.dropLast (List.dropLast_prefix _)
  simp only [createParents, above, create_dir_all_free _ _ clean]
  refine List.mem_map_of_mem (List.mem_filter.mpr ⟨?_, ?_⟩)
  · exact (mem_ancestors _ _).mpr ⟨segments, by rwa [kept], named, rfl⟩
  · rw [standing_empty]
    · rfl
    · rw [components_kept path segments (cut.trans (List.dropLast_prefix _))]
      rintro rfl
      cases named

theorem names_file_components (path : UnixPath) (named : namesFile path = true) :
    path.components ≠ [] := by
  simp only [namesFile, decide_eq_true_eq] at named
  cases last : path.segments.getLast? with
  | none =>
      rw [last] at named
      cases named.2
  | some segment =>
      rw [last] at named
      have name : isName segment = true := named.2
      simp only [isName, decide_eq_true_eq] at name
      apply List.ne_nil_of_mem
      exact List.mem_filter.mpr ⟨List.mem_of_getLast? last, by simp [name.1, name.2.1]⟩

theorem file_opened (entry : FileEntry) (path : UnixPath) (found : target entry = some path)
    (named : namesFile path = true) :
    ∃ ops file, openEntry freeHost ⟨false, []⟩ entry = (ops, .ok file) ∧ .openFile path ∈ ops := by
  have some := names_file_components path named
  have above := (parent_eq_some_iff path _).mpr ⟨some, rfl⟩
  simp only [namesFile, decide_eq_true_eq] at named
  have clean : usable { path with segments := path.components.dropLast } = true := by
    apply List.all_eq_true.mpr
    intro segment member
    have inside := (List.mem_filter.mp ((List.dropLast_prefix _).subset member)).1
    exact List.all_eq_true.mp named.1 segment inside
  have opens : openable (standing ⟨false, []⟩) path = true :=
    decide_eq_true ⟨named.1, named.2, by rw [standing_empty path some]; rfl⟩
  have parents : (createParents freeHost ⟨false, []⟩ path).2 = true := by
    simp only [createParents, above, create_dir_all_free _ _ clean]
  rw [target] at found
  have opened : openSized freeHost (standing ⟨false, []⟩) path entry.length =
      ([.openFile path, .setLen path entry.length],
        .ok (setLen (freeHost.content path) entry.length)) := by
    rw [openSized, if_pos ⟨opens, rfl⟩]
    rfl
  have whole : openEntry freeHost ⟨false, []⟩ entry =
      ((createParents freeHost ⟨false, []⟩ path).1 ++
        [.openFile path, .setLen path entry.length],
        .ok (setLen (freeHost.content path) entry.length)) := by
    simp only [openEntry, found, if_pos parents, opened]
  exact ⟨_, _, whole, List.mem_append_right _ List.mem_cons_self⟩

theorem directory_op (entry : FileEntry) (path : UnixPath) (found : target entry = some path)
    (segments : List Segment) (member : segments ∈ directories path) :
    .createDir { path with segments := segments } ∈ (openEntry freeHost ⟨false, []⟩ entry).1 := by
  have made := directory_created path segments member
  rw [target] at found
  simp only [openEntry, found]
  split
  · exact List.mem_append_left _ made
  · exact made

theorem wrapping_add (width a b : Nat) :
    ∃ total, (Profile.wrapping.add width a b : Except (Fault DiskError) Nat) = .ok total := by
  unfold Profile.add Profile.narrow
  split
  · exact ⟨_, rfl⟩
  · exact ⟨_, rfl⟩

theorem reached_processed (entries : List FileEntry) (files : List Bytes) (totalSize : Nat)
    (entry : FileEntry) (member : entry ∈ reached entries) (op : FsOp)
    (made : op ∈ (openEntry freeHost ⟨false, []⟩ entry).1) :
    op ∈ (openEntries .wrapping freeHost ⟨false, []⟩ entries files totalSize).1 := by
  induction entries generalizing files totalSize with
  | nil => cases member
  | cons first rest ih =>
      rw [reached] at member
      rcases List.mem_cons.mp member with rfl | later
      · unfold openEntries
        split
        · rename_i ops fault first
          rwa [first] at made
        · rename_i ops file first
          rw [first] at made
          split
          · exact made
          · exact List.mem_append_left _ made
      · split at later
        · rename_i named
          obtain ⟨path, found, names⟩ := (Option.any_eq_true _ _).mp named
          obtain ⟨ops, file, opened, -⟩ := file_opened first path found names
          -- The total wraps, so no length stops the loop.
          obtain ⟨total, sum⟩ := wrapping_add 64 totalSize first.length
          simp only [openEntries, opened, sum]
          exact List.mem_append_right _ (ih (files ++ [file]) total later)
        · cases later

theorem confined_inside (path : UnixPath) (segments : List Segment)
    (below : Below (UnixPath.mk false []).resolve
      (UnixPath.resolve { path with segments := segments })) : Inside path segments := by
  obtain ⟨absolute, ups, -⟩ := below
  have relative : path.absolute = false := by
    rw [UnixPath.resolve, walk_all_absolute] at absolute
    exact absolute
  refine ⟨relative, ?_⟩
  rw [UnixPath.resolve, relative] at ups
  exact ups

end Escape

/-- Whatever the host and the base directory, everything that is created, opened or
resized for these entries lies in the base directory. -/
def AlwaysConfined (entries : List FileEntry) : Prop :=
  ∀ profile host basePath pieceLength,
    ∀ op ∈ (DiskIo.new profile host basePath (.multiFile entries) pieceLength).fileOps,
      Confined basePath op

section Plain

def Plain (entry : FileEntry) : Prop :=
  ∀ component ∈ entry.path, isName component = true ∧ slash ∉ component

theorem plain_target (path : UnixPath) (components : List Bytes) (found : UnixPath)
    (plain : ∀ component ∈ components, slash ∉ component)
    (located : entryPath path components = some found) :
    found = { path with segments := path.segments ++ components } := by
  induction components generalizing path with
  | nil =>
      cases located
      rw [List.append_nil]
  | cons component rest ih =>
      have whole : component.splitOn slash = [component] :=
        List.splitOnP_eq_singleton fun byte member => by
          rw [beq_eq_false_iff_ne]
          rintro rfl
          exact plain _ List.mem_cons_self member
      have pushed : path.push component =
          { path with segments := path.segments ++ [component] } := by
        simp only [UnixPath.push, whole]
      unfold entryPath at located
      split at located
      · rw [pushed] at located
        rw [ih _ (fun other member => plain other (List.mem_cons_of_mem component member)) located,
          List.append_cons path.segments component rest]
      · cases located

theorem plain_safe (entry : FileEntry) (plain : Plain entry) : Safe entry := by
  intro path found
  obtain rfl := plain_target ⟨false, []⟩ entry.path path (fun component member =>
    (plain component member).2) found
  have names : ∀ segments : List Segment, segments <+: entry.path →
      Inside ⟨false, [] ++ entry.path⟩ segments := by
    intro segments cut
    have all : ∀ segment ∈ segments, isName segment = true :=
      fun segment member => (plain segment (cut.subset member)).1
    exact ⟨rfl, by rw [walk_all_named _ segments all]⟩
  have parts : (UnixPath.mk false ([] ++ entry.path)).components <+: entry.path := by
    rw [UnixPath.components, List.filter_eq_self.mpr]
    · exact List.prefix_refl _
    · intro segment member
      have name := (plain segment member).1
      simp only [isName, decide_eq_true_eq] at name
      exact decide_eq_true ⟨name.1, name.2.1⟩
  constructor
  · intro segments directory
    obtain ⟨-, -, cut, -⟩ := (mem_directories _ segments).mp directory
    exact names segments ((cut.trans (List.dropLast_prefix _)).trans parts)
  · intro named
    exact names _ parts

end Plain

section Climbing

def climbingInfo : String :=
  "d5:filesld6:lengthi1e4:pathl2:..1:xeee4:name1:n12:piece lengthi1e6:pieces0:e"

def climbingBytes : Bytes := fromStr ("d8:announce1:t4:info" ++ climbingInfo ++ "e")

def climbingFiles : List FileEntry := [{ length := 1, path := [fromStr "..", fromStr "x"] }]

def climbingTree : Bencode :=
  .dict
    [(fromStr "announce", .byteString (fromStr "t")),
      (fromStr "info", .dict
        [(fromStr "files", .list
            [.dict
              [(fromStr "length", .number 1),
                (fromStr "path", .list
                  [.byteString (fromStr ".."), .byteString (fromStr "x")])]]),
          (fromStr "name", .byteString (fromStr "n")),
          (fromStr "piece length", .number 1),
          (fromStr "pieces", .byteString [])])]

def climbingCrates : Crates :=
  { fromBuffer := fun bytes => if bytes = climbingBytes then some climbingTree else none
    toBytes := fun _ => .ok (fromStr climbingInfo)
    sha1 := fun _ => #v[137, 197, 2, 60, 67, 13, 127, 61, 170, 187, 57, 145, 157, 35, 7, 97, 36,
      203, 5, 154] }

end Climbing

end MotteSeed.DiskPaths
