import CalcShell.Proofs.Completion.Listing
import CalcShell.Proofs.Completion.Walking

/-! What the index knows once the walk is over, which names it offers on the way, and in which order it comes
to the entries. -/
namespace CalcShell

/-! ### Known names -/

namespace Table

variable {α : Type}

lemma pairwise_keys (table : Table α) : table.keys.Pairwise (· < ·) := by
  rw [keys, List.pairwise_map]
  exact table.increasing

lemma keys_eq_of_mem_iff {table other : Table α} (same : ∀ key, key ∈ table.keys ↔ key ∈ other.keys) :
    table.keys = other.keys := List.Pairwise.eq_of_mem_iff table.pairwise_keys other.pairwise_keys same

end Table

namespace ModuleIndex

variable {suffixes : List Bytes} {names : Table Unit} {key start : Bytes}

lemma mem_keys_consider {entry : Option Location} : key ∈ (consider suffixes names entry).keys ↔
    key ∈ names.keys ∨ entry.bind (moduleName? suffixes) = some key := by
  rw [consider]
  cases entry.bind (moduleName? suffixes) with
  | none => simp
  | some name => simp [Table.mem_keys_insert, or_comm, eq_comm]

lemma mem_keys_foldl_consider {visited : List (Option Location)} :
    key ∈ (visited.foldl (consider suffixes) names).keys ↔
      key ∈ names.keys ∨ ∃ entry ∈ visited, entry.bind (moduleName? suffixes) = some key := by
  induction visited generalizing names with
  | nil => simp
  | cons entry visited ih => simp [ih, mem_keys_consider, or_assoc]

/-- Names with a common start stand next to each other. -/
lemma takeWhile_dropWhile_eq_filter {keys : List Bytes} (increasing : keys.Pairwise (· < ·))
    (start : Bytes) : (keys.dropWhile (· < start)).takeWhile start.isPrefixOf = keys.filter start.isPrefixOf := by
  induction keys with
  | nil => rfl
  | cons key keys ih =>
    obtain ⟨above, increasing⟩ := List.pairwise_cons.1 increasing
    by_cases isBefore : key < start
    · have skipped : start.isPrefixOf key = false := by
        rw [Bool.eq_false_iff, ne_eq, List.isPrefixOf_iff_prefix]
        exact fun begins => List.not_lt.2 begins.le isBefore
      rw [List.dropWhile_cons_of_pos (by simpa using isBefore), ih increasing, List.filter_cons, skipped]
      rfl
    · have fromHere : start ≤ key := List.not_lt.1 isBefore
      have stays : keys.dropWhile (· < start) = keys := by
        cases keys with
        | nil => rfl
        | cons next keys =>
          have beyond : start ≤ next := List.le_trans fromHere (List.le_of_lt (above next List.mem_cons_self))
          rw [List.dropWhile_cons_of_neg (by simpa using beyond)]
      rw [List.dropWhile_cons_of_neg (by simpa using fromHere), List.takeWhile_cons, List.filter_cons]
      split
      · rw [← ih increasing, stays]
      · rename_i isOther
        -- A later name that begins with `start` would stand in front of `key`.
        rw [List.isPrefixOf_iff_prefix] at isOther
        refine (List.filter_eq_nil_iff.2 fun other mem begins => ?_).symm
        obtain ⟨rest, rfl⟩ := List.isPrefixOf_iff_prefix.1 begins
        have less : start < key := Std.lt_of_le_of_ne fromHere fun same => isOther (same ▸ List.prefix_refl _)
        have before := append_lt_append_of_differs less isOther rest []
        rw [List.append_nil] at before
        exact List.lt_asymm before (above _ mem)

end ModuleIndex

/-! ### Order of the entries -/

lemma pairwise_mergeSort_fst {α β : Type} [LE α] [DecidableLE α] [Std.IsLinearOrder α]
    (entries : List (α × β)) :
    (entries.mergeSort fun a b => decide (a.1 ≤ b.1)).Pairwise fun a b => a.1 ≤ b.1 := by
  refine (List.pairwise_mergeSort ?_ ?_ _).imp of_decide_eq_true
  · intro a b c first second
    exact decide_eq_true (Std.le_trans (of_decide_eq_true first) (of_decide_eq_true second))
  · intro a b
    simpa using Std.le_total

namespace FileTree

variable {files : FileTree}

/-- Directories that list their entries in the order of the names. -/
def byName (files : FileTree) : Listing := fun place =>
  (files.children place).mergeSort fun a b => decide (a.1 ≤ b.1)

lemma isListing_byName (files : FileTree) : files.IsListing files.byName := fun _ => List.mergeSort_perm _ _

lemma pairwise_allBelow (files : FileTree) (root place : Location) :
    (files.allBelow root place).Pairwise fun a b => a.1 ≤ b.1 := by
  rw [allBelow, List.pairwise_map]
  exact (pairwise_mergeSort_fst _).imp List.append_left_le

/-- By name, no entry of a directory is listed twice, and none begins with the place of another. -/
lemma pairwise_list_byName (tree : files.IsTree) (root place : Location) :
    (OpenRoot.list files.byName root place).Pairwise fun a b => a.1 < b.1 ∧ ¬a.1 <+: b.1 := by
  have listed := isListing_byName files (root ++ place)
  have sorted := pairwise_mergeSort_fst (files.children (root ++ place))
  have distinct := listed.nodup_iff.2 (tree.nodup_children _)
  rw [OpenRoot.list, List.pairwise_map]
  refine (sorted.and distinct).imp_of_mem fun {a b} mem mem' ⟨notAfter, differ⟩ => ?_
  have names : a.1 ≠ b.1 := by
    intro same
    have there := mem_children_iff.1 (listed.mem_iff.1 mem)
    have there' := mem_children_iff.1 (listed.mem_iff.1 mem')
    rw [same] at there
    exact differ (Prod.ext same (tree.node_inj there there'))
  constructor
  · exact List.append_left_lt (List.cons_lt_cons_iff.2 (.inl (Std.lt_of_le_of_ne notAfter names)))
  · intro begins
    have same := begins.eq_of_length (by simp)
    exact names (by simpa using same)

/-- The entries of a directory by name, with what lies below each of them. -/
lemma pairwise_flatMap_byName (tree : files.IsTree) (root place : Location) :
    ((OpenRoot.list files.byName root place).flatMap (files.withBelow root)).Pairwise fun a b =>
      a.1 ≤ b.1 := by
  refine List.pairwise_flatMap.2 ⟨fun entry _ => List.pairwise_cons.2 ⟨?_, pairwise_allBelow _ _ _⟩, ?_⟩
  · intro shown isBelow
    exact (prefix_of_mem_withBelow (List.mem_cons_of_mem _ isBelow)).le
  · refine (pairwise_list_byName tree root place).imp ?_
    rintro a b ⟨less, differs⟩ shown mem shown' mem'
    obtain ⟨rest, same⟩ := prefix_of_mem_withBelow mem
    obtain ⟨rest', same'⟩ := prefix_of_mem_withBelow mem'
    rw [← same, ← same']
    exact List.le_of_lt (append_lt_append_of_differs less differs rest rest')

/-- What lies below a directory is listed in the order in which a walk by name comes to it. -/
lemma allBelow_eq_byName (tree : files.IsTree) (root place : Location) :
    files.allBelow root place = (OpenRoot.list files.byName root place).flatMap (files.withBelow root) := by
  -- Both hold the same entries, and both are in the order of the places.
  have walked := OpenRoot.flatMap_list_perm tree (isListing_byName files) root place
  refine List.Perm.eq_of_pairwise ?_ (pairwise_allBelow files root place)
    (pairwise_flatMap_byName tree root place) walked.symm
  rintro ⟨deep, node⟩ ⟨deep', node'⟩ mem mem' notAfter notBefore
  obtain rfl : deep = deep' := Std.le_antisymm notAfter notBefore
  rw [walked.mem_iff] at mem'
  obtain ⟨-, -, -, there⟩ := mem_allBelow_iff.1 mem
  obtain ⟨-, -, -, there'⟩ := mem_allBelow_iff.1 mem'
  rw [tree.node_inj there there']

end FileTree

namespace OpenRoot

open ModuleIndex (fileAt)

variable {files : FileTree} {o : OpenRoot}

lemma shown_ofPath_byName (tree : files.IsTree) (path : Bytes) : (ofPath files files.byName path).shown files =
    (files.below ((files.resolve? path).getD [])).map fun entry => fileAt files path entry.1 := by
  rw [← FileTree.allBelow_nil, FileTree.allBelow_eq_byName tree]
  rfl

lemma shown_eq_byName (tree : files.IsTree) (isIn : o.IsIn files) {entry : Location × FileNode}
    {rest : List (Location × FileNode)} (shape : o.stack = entry :: rest) :
    o.shown files = fileAt files o.path entry.1 :: (o.advance files.byName).shown files := by
  rw [shown, shown, path_advance, remaining_eq shape,
    remaining_advance tree (FileTree.isListing_byName files) isIn shape, FileTree.allBelow_eq_byName tree,
    List.map_cons]

end OpenRoot

/-! ### The index of the shell -/

namespace ModuleIndex

variable {files : FileTree} {index : ModuleIndex}

lemma visit_of_pending {entry : Option Location} {pending : List (Option Location)}
    (shape : index.pending = entry :: pending) (budget : Nat) :
    visit files index (budget + 1) =
      visit files { index with pending, names := consider index.suffixes index.names entry } budget := by
  obtain ⟨suffixes, limit, roots, _, isDone, names⟩ := index
  cases shape
  rw [visit]

lemma visit_of_roots {root : Bytes} {roots : List Bytes} (nothing : index.pending = [])
    (shape : index.roots = root :: roots) (budget : Nat) :
    visit files index (budget + 1) =
      visit files { index with roots, pending := entries files root } (budget + 1) := by
  obtain ⟨suffixes, limit, _, _, isDone, names⟩ := index
  cases shape
  cases nothing
  rw [visit]

lemma visit_of_none (nothing : index.pending = []) (noRoots : index.roots = []) (budget : Nat) :
    visit files index (budget + 1) = (budget + 1, { index with isDone := true }) := by
  obtain ⟨suffixes, limit, _, _, isDone, names⟩ := index
  cases noRoots
  cases nothing
  rw [visit]

/-- Roots that cannot be opened are passed over. -/
lemma visit_of_openNext (tree : files.IsTree) (nothing : index.pending = []) (budget : Nat) :
    visit files index (budget + 1) =
      match ModuleWalk.openNext files files.byName index.roots with
      | none => (budget + 1, { index with roots := [], isDone := true })
      | some (o, roots) => visit files { index with roots, pending := o.shown files } (budget + 1) := by
  obtain ⟨suffixes, limit, roots, _, isDone, names⟩ := index
  cases nothing
  induction roots with
  | nil => rw [visit_of_none rfl rfl, ModuleWalk.openNext]
  | cons path roots ih =>
    rw [visit_of_roots rfl rfl, ModuleWalk.openNext, entries_eq]
    by_cases isDirectory : files.isDirectory path
    · rw [if_pos isDirectory, if_pos isDirectory, ← OpenRoot.shown_ofPath_byName tree]
    · rw [if_neg isDirectory, if_neg isDirectory]
      exact ih

end ModuleIndex

namespace ModuleWalk

variable {files : FileTree}

/-- The index that has come as far as a walk by name. -/
def index (files : FileTree) (walk : ModuleWalk) : ModuleIndex :=
  { suffixes := walk.suffixes, budget := walk.budget, roots := walk.roots, pending := walk.pending files,
    isDone := walk.isDone, names := walk.names }

@[simp] lemma roots_index (files : FileTree) (walk : ModuleWalk) : (walk.index files).roots = walk.roots := rfl

@[simp] lemma pending_index (files : FileTree) (walk : ModuleWalk) :
    (walk.index files).pending = walk.pending files := rfl

@[simp] lemma isDone_index (files : FileTree) (walk : ModuleWalk) :
    (walk.index files).isDone = walk.isDone := rfl

@[simp] lemma budget_index (files : FileTree) (walk : ModuleWalk) :
    (walk.index files).budget = walk.budget := rfl

theorem visit_index (tree : files.IsTree) {walk : ModuleWalk} (isIn : ∀ o ∈ walk.current, o.IsIn files)
    (budget : Nat) : ModuleIndex.visit files (walk.index files) budget =
      let r := visit files files.byName walk budget
      (r.1, r.2.index files) := by
  have isListing := FileTree.isListing_byName files
  fun_induction visit files files.byName walk budget with
  | case1 walk => rw [ModuleIndex.visit]
  | case2 walk budget closed ended =>
    rw [ModuleIndex.visit_of_openNext tree (pending_of_closed closed), roots_index, ended]
    rfl
  | case3 walk budget closed o roots opened ih =>
    rw [ModuleIndex.visit_of_openNext tree (pending_of_closed closed), roots_index, opened]
    exact ih (forall_mem_some (visits_enter tree isListing closed opened).1)
  | case4 walk budget o isOpen exhausted ih =>
    have same : walk.index files = walk.leave.index files := by
      rw [index, pending_of_open isOpen, OpenRoot.shown_of_exhausted exhausted]
      rfl
    have closed : ∀ o ∈ walk.leave.current, o.IsIn files := by
      rintro o ⟨⟩
    rw [same]
    exact ih closed
  | case5 walk budget o isOpen place node rest shape ih =>
    have isIn : o.IsIn files := isIn o isOpen
    have shown : (walk.index files).pending =
        ModuleIndex.fileAt files o.path place :: (o.advance files.byName).shown files := by
      rw [pending_index, pending_of_open isOpen, OpenRoot.shown_eq_byName tree isIn shape]
    rw [ModuleIndex.visit_of_pending shown]
    exact ih (forall_mem_some (isIn.advance isListing))

theorem step_index (tree : files.IsTree) {walk : ModuleWalk} (isIn : ∀ o ∈ walk.current, o.IsIn files) :
    (walk.index files).step files =
      let r := step files files.byName walk
      (r.1, r.2.index files) := by
  by_cases isDone : walk.isDone = true
  · rw [step_of_isDone isDone, ModuleIndex.step, isDone_index, if_pos isDone]
  · rw [ModuleIndex.step, step, isDone_index, if_neg isDone, if_neg isDone, budget_index,
      visit_index tree isIn]

/-- Steps of the index are steps of a walk by name. -/
theorem steps_index (tree : files.IsTree) (roots suffixes : List Bytes) (budget n : Nat) :
    steps (fun index => index.step files) n (ModuleIndex.new roots suffixes budget) =
      let r := run files files.byName roots suffixes budget n
      (r.1, r.2.index files) := by
  induction n with
  | zero => rfl
  | succ n ih =>
    obtain ⟨sound, -⟩ := visits_run tree (FileTree.isListing_byName files) roots suffixes budget n
    rw [steps, ih, run_succ]
    dsimp only
    rw [step_index tree sound.isIn]

/-- The known names that begin with a text: those from it on, as long as they begin with it. -/
def complete (walk : ModuleWalk) (start : Bytes) : List Bytes :=
  (walk.names.keys.dropWhile (· < start)).takeWhile start.isPrefixOf

lemma complete_eq_filter (walk : ModuleWalk) (start : Bytes) :
    walk.complete start = walk.names.keys.filter start.isPrefixOf :=
  ModuleIndex.takeWhile_dropWhile_eq_filter walk.names.pairwise_keys start

lemma complete_index (files : FileTree) (walk : ModuleWalk) (start : Bytes) :
    (walk.index files).complete start = walk.complete start := (complete_eq_filter walk start).symm

lemma mem_complete_iff {walk : ModuleWalk} {start name : Bytes} :
    name ∈ walk.complete start ↔ name ∈ walk.names.keys ∧ start <+: name := by
  rw [complete_eq_filter, List.mem_filter, List.isPrefixOf_iff_prefix]

lemma pairwise_complete (walk : ModuleWalk) (start : Bytes) :
    (walk.complete start).Pairwise (· < ·) := by
  rw [complete_eq_filter]
  exact walk.names.pairwise_keys.filter _

/-! ### The end of a walk -/

/-- The number of entries below the roots that can be opened. -/
def entryCount (files : FileTree) (roots : List Bytes) : Nat :=
  ((roots.filter files.isDirectory).flatMap fun root =>
    files.below ((files.resolve? root).getD [])).length

lemma length_flatMap_entries (files : FileTree) (roots : List Bytes) :
    (roots.flatMap (ModuleIndex.entries files)).length = entryCount files roots := by
  induction roots with
  | nil => rfl
  | cons root roots ih =>
    rw [entryCount] at ih
    rw [List.flatMap_cons, List.length_append, ih, ModuleIndex.entries_eq, entryCount, List.filter_cons]
    by_cases isDirectory : files.isDirectory root
    · rw [if_pos isDirectory, if_pos isDirectory, List.length_map, List.flatMap_cons, List.length_append]
    · rw [if_neg isDirectory, if_neg isDirectory, List.length_nil, Nat.zero_add]

variable {files : FileTree} {listing listing' : Listing} {roots suffixes : List Bytes} {budget n : Nat}

/-- The name is that of a file below one of the roots that can be opened. -/
def IsBelow (files : FileTree) (roots suffixes : List Bytes) (name : Bytes) : Prop :=
  ∃ root ∈ roots, files.isDirectory root = true ∧
    ∃ place node, (place, node) ∈ files.below ((files.resolve? root).getD []) ∧
      (files.read? (ModuleIndex.pathBelow root place)).isSome = true ∧
      ModuleIndex.moduleName? suffixes place = some name

lemma isBelow_iff {name : Bytes} : IsBelow files roots suffixes name ↔
    ∃ entry ∈ roots.flatMap (ModuleIndex.entries files),
      entry.bind (ModuleIndex.moduleName? suffixes) = some name := by
  constructor
  · rintro ⟨root, isRoot, isDirectory, place, node, there, isFile, named⟩
    refine ⟨some place, List.mem_flatMap.2 ⟨root, isRoot, ?_⟩, named⟩
    rw [ModuleIndex.entries_eq, if_pos isDirectory]
    exact List.mem_map.2 ⟨(place, node), there, if_pos isFile⟩
  · rintro ⟨entry, visited, named⟩
    obtain ⟨root, isRoot, mem⟩ := List.mem_flatMap.1 visited
    rw [ModuleIndex.entries_eq] at mem
    split at mem
    · rename_i isDirectory
      obtain ⟨⟨place, node⟩, there, rfl⟩ := List.mem_map.1 mem
      unfold ModuleIndex.fileAt at named
      split at named
      · rename_i isFile
        exact ⟨root, isRoot, isDirectory, place, node, there, isFile, named⟩
      · cases named
    · cases mem

/-- In the end every entry was visited. -/
lemma visited_of_isDone (tree : files.IsTree) (isListing : files.IsListing listing)
    (isDone : (run files listing roots suffixes budget n).2.isDone = true) :
    ∃ visited : List (Option Location), visited.length = (run files listing roots suffixes budget n).1 ∧
      visited.Perm (roots.flatMap (ModuleIndex.entries files)) ∧
      (run files listing roots suffixes budget n).2.names =
        visited.foldl (ModuleIndex.consider suffixes) .empty := by
  obtain ⟨sound, -, visited, count, onward⟩ := visits_run tree isListing roots suffixes budget n
  have all := onward.upcoming
  rw [sound.complete isDone, List.append_nil, upcoming_new] at all
  exact ⟨visited, count, all, onward.names⟩

/-- In the end all modules below the roots are known, and nothing else. -/
lemma mem_keys_of_isDone (tree : files.IsTree) (isListing : files.IsListing listing)
    (isDone : (run files listing roots suffixes budget n).2.isDone = true) {name : Bytes} :
    name ∈ (run files listing roots suffixes budget n).2.names.keys ↔ IsBelow files roots suffixes name := by
  obtain ⟨visited, -, all, names⟩ := visited_of_isDone tree isListing isDone
  rw [names, ModuleIndex.mem_keys_foldl_consider, isBelow_iff]
  simp [all.mem_iff, Table.keys]

/-- In whatever order the directories list their entries and however many entries a step may visit, the index
comes to know the same names: those of the files below the roots. On the way no step visits more entries than it
may, all of them add up to what lies below the roots, and exactly the known names that begin with a text are
offered for it. The index of the shell is the one of a walk by name. -/
theorem budget_and_order_independent (tree : files.IsTree) (isListing : files.IsListing listing)
    (isListing' : files.IsListing listing') (roots suffixes : List Bytes) (budget budget' : Nat) :
    (∃ n, (run files listing roots suffixes budget n).2.isDone = true) ∧
    (∀ n n', (run files listing roots suffixes budget n).2.isDone = true →
      (run files listing' roots suffixes budget' n').2.isDone = true →
      (run files listing roots suffixes budget n).2.names.keys =
        (run files listing' roots suffixes budget' n').2.names.keys) ∧
    (∀ n, let r := run files listing roots suffixes budget n
      (step files listing r.2).1 ≤ max 1 budget ∧
      (r.2.isDone = true → r.1 = entryCount files roots ∧ step files listing r.2 = (0, r.2) ∧
        ∀ name, name ∈ r.2.names.keys ↔ IsBelow files roots suffixes name) ∧
      ∀ start, (r.2.complete start).Pairwise (· < ·) ∧
        ∀ name, name ∈ r.2.complete start ↔ name ∈ r.2.names.keys ∧ start <+: name) ∧
    ∀ n, let r := run files files.byName roots suffixes budget n
      steps (fun index => index.step files) n (ModuleIndex.new roots suffixes budget) =
          (r.1, r.2.index files) ∧
        ∀ start, (r.2.index files).complete start = r.2.complete start := by
  refine ⟨exists_isDone_run tree isListing roots suffixes budget, ?same, ?onTheWay, fun n =>
    ⟨steps_index tree roots suffixes budget n, complete_index files _⟩⟩
  case same =>
    intro n n' isDone isDone'
    refine Table.keys_eq_of_mem_iff fun name => ?_
    rw [mem_keys_of_isDone tree isListing isDone, mem_keys_of_isDone tree isListing' isDone']
  case onTheWay =>
    intro n
    obtain ⟨sound, -, visited, count, onward⟩ := visits_run tree isListing roots suffixes budget n
    obtain ⟨-, -, within, -⟩ := visits_step tree isListing sound
    rw [onward.budget] at within
    refine ⟨within, fun isDone => ⟨?_, step_of_isDone isDone, fun _ =>
      mem_keys_of_isDone tree isListing isDone⟩, fun start =>
      ⟨pairwise_complete _ start, fun name => mem_complete_iff⟩⟩
    obtain ⟨visited, count, all, -⟩ := visited_of_isDone tree isListing isDone
    rw [← count, all.length_eq, length_flatMap_entries]

/-- A package next to a file that is no module, and a working directory beside both. -/
def package : FileTree where
  nodes :=
    [([bytes "lib"], .directory), ([bytes "lib", bytes "pkg"], .directory),
      ([bytes "lib", bytes "pkg", bytes "__init__.py"], .file []),
      ([bytes "lib", bytes "pkg", bytes "tool.py"], .file []),
      ([bytes "lib", bytes "notes.txt"], .file []), ([bytes "work"], .directory)]
  working := [bytes "work"]

/-- One root is named from the root of all files, one from above the working directory, and one is gone. -/
theorem budget_and_order_independent_package :
    let backwards : Listing := fun place => (package.children place).reverse
    let roots := [bytes "/lib", bytes "../lib/pkg", bytes "gone"]
    let one := run package backwards roots [bytes ".py"] 1
    let ten := run package package.byName roots [bytes ".py"] 10
    package.IsTree ∧ package.IsListing backwards ∧ package.IsListing package.byName ∧
      (∃ n, (one n).2.isDone = true) ∧
      ∀ n n', (one n).2.isDone = true → (ten n').2.isDone = true →
        (one n).2.names.keys = (ten n').2.names.keys ∧ (one n).1 = 6 ∧
          bytes "pkg.tool" ∈ (one n).2.names.keys ∧ bytes "tool" ∈ (one n).2.names.keys := by
  intro backwards roots one ten
  have tree : package.IsTree := ⟨by decide, by decide⟩
  have isBackwards : package.IsListing backwards := fun _ => List.reverse_perm _
  have isByName := FileTree.isListing_byName package
  obtain ⟨ends, same, onTheWay, -⟩ := budget_and_order_independent tree isBackwards isByName
    roots [bytes ".py"] 1 10
  have count : entryCount package roots = 6 := by
    have openable : roots.filter package.isDirectory = [bytes "/lib", bytes "../lib/pkg"] := by decide +kernel
    rw [entryCount, openable, List.flatMap_cons, List.flatMap_singleton, List.length_append, FileTree.below_eq,
      FileTree.below_eq, List.length_mergeSort, List.length_mergeSort]
    decide +kernel
  have dotted : IsBelow package roots [bytes ".py"] (bytes "pkg.tool") :=
    ⟨bytes "/lib", by simp [roots], by decide +kernel, [bytes "pkg", bytes "tool.py"], .file [],
      FileTree.mem_below_iff.2 (by decide +kernel), by decide +kernel, by decide +kernel⟩
  have plain : IsBelow package roots [bytes ".py"] (bytes "tool") :=
    ⟨bytes "../lib/pkg", by simp [roots], by decide +kernel, [bytes "tool.py"], .file [],
      FileTree.mem_below_iff.2 (by decide +kernel), by decide +kernel, by decide +kernel⟩
  refine ⟨tree, isBackwards, isByName, ends, fun n n' isDone isDone' => ?_⟩
  obtain ⟨visited, -, known⟩ := (onTheWay n).2.1 isDone
  exact ⟨same n n' isDone isDone', visited.trans count, (known _).2 dotted, (known _).2 plain⟩

end ModuleWalk
end CalcShell
