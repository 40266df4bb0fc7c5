import CalcShell.Completion.Modules
import CalcShell.Proofs.Files.Below

/-! The walk through the files below some roots, with what is left to visit of every open directory. It can
stop behind any entry. However it is cut into steps and in whatever order directories list their entries, it
comes to every entry once. -/
namespace CalcShell

/-- The entries of the directories, in the order in which they are listed. -/
abbrev Listing := Location → List (Bytes × FileNode)

def FileTree.IsListing (files : FileTree) (listing : Listing) : Prop :=
  ∀ place, (listing place).Perm (files.children place)

namespace ModuleIndex

/-- What the index takes an entry for: only a file that its whole path leads to counts as one. -/
def fileAt (files : FileTree) (path : Bytes) (place : Location) : Option Location :=
  if (files.read? (pathBelow path place)).isSome then some place else none

lemma entries_eq (files : FileTree) (path : Bytes) : entries files path =
    if files.isDirectory path then
      (files.below ((files.resolve? path).getD [])).map fun entry => fileAt files path entry.1
    else [] := rfl

end ModuleIndex

/-- A root that is being walked through. -/
structure OpenRoot where
  path : Bytes
  place : Location
  /-- Entries that are still to be visited, those of the innermost directory first, with their places behind
  the root. A directory is opened when the walk goes on behind it. -/
  stack : List (Location × FileNode)

structure ModuleWalk where
  suffixes : List Bytes
  budget : Nat
  /-- Roots that are still to be opened. -/
  roots : List Bytes
  current : Option OpenRoot := none
  isDone : Bool := false
  names : Table Unit := .empty

namespace OpenRoot

/-- A directory behind a root, as it is listed. -/
def list (listing : Listing) (root place : Location) : List (Location × FileNode) :=
  (listing (root ++ place)).map fun entry => (place ++ [entry.1], entry.2)

def ofPath (files : FileTree) (listing : Listing) (path : Bytes) : OpenRoot :=
  let place := (files.resolve? path).getD []
  { path, place, stack := list listing place [] }

/-- What is left behind the entry that was visited. -/
def advance (listing : Listing) (o : OpenRoot) : OpenRoot :=
  match o.stack with
  | [] => o
  | (place, .directory) :: rest => { o with stack := list listing o.place place ++ rest }
  | (_, .file _) :: rest => { o with stack := rest }

end OpenRoot

namespace ModuleWalk

open ModuleIndex (consider fileAt)

def new (roots suffixes : List Bytes) (budget : Nat) : ModuleWalk :=
  { roots, suffixes, budget := max 1 budget, isDone := roots.isEmpty }

/-- The first root that can be opened, and the roots behind it. -/
def openNext (files : FileTree) (listing : Listing) : List Bytes → Option (OpenRoot × List Bytes)
  | [] => none
  | path :: rest =>
    if files.isDirectory path then some (.ofPath files listing path, rest)
    else openNext files listing rest

lemma length_of_openNext {files : FileTree} {listing : Listing} {roots rest : List Bytes} {o : OpenRoot}
    (opened : openNext files listing roots = some (o, rest)) : rest.length < roots.length := by
  induction roots with
  | nil => cases opened
  | cons path roots ih =>
    rw [openNext] at opened
    split at opened
    · cases opened
      exact Nat.lt_succ_self _
    · exact Nat.lt_succ_of_lt (ih opened)

def enter (walk : ModuleWalk) (o : OpenRoot) (roots : List Bytes) : ModuleWalk :=
  { walk with roots, current := some o }

def leave (walk : ModuleWalk) : ModuleWalk := { walk with current := none }

/-- Visits the entry at a place and goes on behind it. -/
def pass (files : FileTree) (listing : Listing) (walk : ModuleWalk) (o : OpenRoot) (place : Location) :
    ModuleWalk :=
  { walk with
    current := some (o.advance listing)
    names := consider walk.suffixes walk.names (fileAt files o.path place) }

@[simp] lemma isDone_pass (files : FileTree) (listing : Listing) (walk : ModuleWalk) (o : OpenRoot)
    (place : Location) : (walk.pass files listing o place).isDone = walk.isDone := by
  dsimp only [pass]

@[simp] lemma roots_pass (files : FileTree) (listing : Listing) (walk : ModuleWalk) (o : OpenRoot)
    (place : Location) : (walk.pass files listing o place).roots = walk.roots := by
  dsimp only [pass]

def finish (walk : ModuleWalk) : ModuleWalk := { walk with roots := [], isDone := true }

/-- Visits up to `budget` entries and tells how many of them were left over. -/
def visit (files : FileTree) (listing : Listing) (walk : ModuleWalk) : Nat → Nat × ModuleWalk
  | 0 => (0, walk)
  | budget + 1 =>
    match _c : walk.current with
    | none =>
      match _o : openNext files listing walk.roots with
      | none => (budget + 1, walk.finish)
      | some (o, roots) => visit files listing (walk.enter o roots) (budget + 1)
    | some o =>
      match o.stack with
      | [] => visit files listing walk.leave (budget + 1)
      | (place, _) :: _ => visit files listing (walk.pass files listing o place) budget
termination_by budget => (budget, 2 * walk.roots.length + if walk.current.isSome then 1 else 0)
decreasing_by
  · have shorter := length_of_openNext _o
    refine Prod.Lex.right _ ?_
    simp [_c, enter]
    omega
  · refine Prod.Lex.right _ ?_
    simp [_c, leave]
  · exact Prod.Lex.left _ _ (Nat.lt_succ_self _)

/-- One step; also tells how many entries it visited. -/
def step (files : FileTree) (listing : Listing) (walk : ModuleWalk) : Nat × ModuleWalk :=
  if walk.isDone then (0, walk)
  else
    let (left, next) := visit files listing walk walk.budget
    (walk.budget - left, next)

end ModuleWalk

/-- Some steps one after the other, with the sum of what they tell. -/
def steps {σ : Type} (step : σ → Nat × σ) : Nat → σ → Nat × σ
  | 0, s => (0, s)
  | n + 1, s =>
    let (visited, s) := steps step n s
    let (more, s) := step s
    (visited + more, s)

variable {files : FileTree} {listing : Listing}

/-! ### A root -/

namespace OpenRoot

open ModuleIndex (fileAt)

variable {o : OpenRoot}

/-- All that is left to visit. -/
def remaining (files : FileTree) (o : OpenRoot) : List (Location × FileNode) :=
  o.stack.flatMap (files.withBelow o.place)

/-- What the index is going to take that for. -/
def shown (files : FileTree) (o : OpenRoot) : List (Option Location) :=
  (o.remaining files).map fun entry => fileAt files o.path entry.1

/-- What is left to visit is there. -/
def IsIn (files : FileTree) (o : OpenRoot) : Prop :=
  ∀ entry ∈ o.stack, entry.1 ≠ [] ∧ (o.place ++ entry.1, entry.2) ∈ files.nodes

@[simp] lemma path_advance (listing : Listing) (o : OpenRoot) : (o.advance listing).path = o.path := by
  unfold advance
  split <;> rfl

@[simp] lemma place_advance (listing : Listing) (o : OpenRoot) : (o.advance listing).place = o.place := by
  unfold advance
  split <;> rfl

lemma list_perm (isListing : files.IsListing listing) (root place : Location) :
    (list listing root place).Perm (files.entriesAt root place) := (isListing _).map _

lemma isIn_list (isListing : files.IsListing listing) {root place : Location}
    {entry : Location × FileNode} (mem : entry ∈ list listing root place) :
    entry.1 ≠ [] ∧ (root ++ entry.1, entry.2) ∈ files.nodes := by
  obtain ⟨name, same, there⟩ := FileTree.mem_entriesAt_iff.1 ((list_perm isListing root place).mem_iff.1 mem)
  exact ⟨by simp [same], there⟩

lemma isIn_ofPath (isListing : files.IsListing listing) (path : Bytes) :
    (ofPath files listing path).IsIn files := fun _ mem => isIn_list isListing mem

lemma IsIn.advance (isListing : files.IsListing listing) (isIn : o.IsIn files) :
    (o.advance listing).IsIn files := by
  unfold OpenRoot.advance
  split
  · exact isIn
  · rename_i place rest shape
    intro entry mem
    rcases List.mem_append.1 mem with listed | mem
    · exact isIn_list isListing listed
    · exact isIn entry (by simp [shape, mem])
  · rename_i place content rest shape
    intro entry mem
    exact isIn entry (by simp [shape, mem])

lemma shown_of_exhausted (exhausted : o.stack = []) : o.shown files = [] := by
  rw [shown, remaining, exhausted]
  rfl

/-- Opening a directory leaves its entries and what lies below them. -/
lemma flatMap_list_perm (tree : files.IsTree) (isListing : files.IsListing listing)
    (root place : Location) :
    ((list listing root place).flatMap (files.withBelow root)).Perm (files.allBelow root place) :=
  ((list_perm isListing root place).flatMap_right _).trans (tree.allBelow_perm root place).symm

lemma remaining_ofPath (tree : files.IsTree) (isListing : files.IsListing listing) (path : Bytes) :
    ((ofPath files listing path).remaining files).Perm (files.below ((files.resolve? path).getD [])) := by
  have all := flatMap_list_perm tree isListing ((files.resolve? path).getD []) []
  rwa [FileTree.allBelow_nil] at all

variable {entry : Location × FileNode} {rest : List (Location × FileNode)}

lemma remaining_eq (shape : o.stack = entry :: rest) : o.remaining files =
    entry :: (files.allBelow o.place entry.1 ++ rest.flatMap (files.withBelow o.place)) := by
  rw [remaining, shape]
  rfl

/-- Nothing is listed below a file. -/
lemma remaining_advance (tree : files.IsTree) (isListing : files.IsListing listing)
    (isIn : o.IsIn files) (shape : o.stack = entry :: rest) :
    (o.advance listing).remaining files =
      (list listing o.place entry.1).flatMap (files.withBelow o.place) ++
        rest.flatMap (files.withBelow o.place) := by
  obtain ⟨place, node⟩ := entry
  rw [remaining, place_advance, advance, shape]
  cases node with
  | directory => exact List.flatMap_append
  | file content =>
    obtain ⟨some, isFile⟩ := isIn (place, .file content) (by simp [shape])
    have nothing := flatMap_list_perm tree isListing o.place place
    rw [tree.allBelow_file some isFile] at nothing
    rw [nothing.eq_nil, List.nil_append]

lemma shown_ofPath (tree : files.IsTree) (isListing : files.IsListing listing) (path : Bytes) :
    ((ofPath files listing path).shown files).Perm
      ((files.below ((files.resolve? path).getD [])).map fun entry => fileAt files path entry.1) :=
  (remaining_ofPath tree isListing path).map _

lemma shown_advance (tree : files.IsTree) (isListing : files.IsListing listing) (isIn : o.IsIn files)
    (shape : o.stack = entry :: rest) :
    (fileAt files o.path entry.1 :: (o.advance listing).shown files).Perm (o.shown files) := by
  rw [shown, shown, path_advance, remaining_eq shape, remaining_advance tree isListing isIn shape,
    List.map_cons]
  exact (((flatMap_list_perm tree isListing o.place entry.1).append_right _).map _).cons _

end OpenRoot

/-! ### A step -/

namespace ModuleWalk

open ModuleIndex (entries entries_eq consider fileAt)

variable {walk next last : ModuleWalk} {visited more : List (Option Location)}

/-- What is left to visit below the open root. -/
def pending (files : FileTree) (walk : ModuleWalk) : List (Option Location) :=
  walk.current.elim [] fun o => o.shown files

/-- All that is left to visit. -/
def upcoming (files : FileTree) (walk : ModuleWalk) : List (Option Location) :=
  walk.pending files ++ walk.roots.flatMap (entries files)

/-- The walk is in the tree, and it is over only when nothing is left. -/
structure IsSound (files : FileTree) (walk : ModuleWalk) : Prop where
  isIn : ∀ o ∈ walk.current, o.IsIn files
  complete : walk.isDone = true → walk.upcoming files = []

/-- The walk comes to some entries and goes on to the next state. -/
structure Visits (files : FileTree) (walk : ModuleWalk) (visited : List (Option Location))
    (next : ModuleWalk) : Prop where
  suffixes : next.suffixes = walk.suffixes
  budget : next.budget = walk.budget
  names : next.names = visited.foldl (consider walk.suffixes) walk.names
  upcoming : (visited ++ next.upcoming files).Perm (walk.upcoming files)

lemma Visits.refl (walk : ModuleWalk) : Visits files walk [] walk := ⟨rfl, rfl, rfl, .refl _⟩

lemma Visits.trans (first : Visits files walk visited next) (second : Visits files next more last) :
    Visits files walk (visited ++ more) last where
  suffixes := second.suffixes.trans first.suffixes
  budget := second.budget.trans first.budget
  names := by rw [List.foldl_append, ← first.names, ← first.suffixes, second.names]
  upcoming := by
    rw [List.append_assoc]
    exact (second.upcoming.append_left visited).trans first.upcoming

lemma flatMap_entries_of_openNext (tree : files.IsTree) (isListing : files.IsListing listing)
    (roots : List Bytes) :
    match openNext files listing roots with
    | none => roots.flatMap (entries files) = []
    | some (o, rest) => o.IsIn files ∧
        (o.shown files ++ rest.flatMap (entries files)).Perm (roots.flatMap (entries files)) := by
  induction roots with
  | nil => rfl
  | cons path roots ih =>
    rw [openNext, List.flatMap_cons, entries_eq]
    by_cases isDirectory : files.isDirectory path
    · rw [if_pos isDirectory, if_pos isDirectory]
      refine ⟨OpenRoot.isIn_ofPath isListing path, ?_⟩
      exact (OpenRoot.shown_ofPath tree isListing path).append_right _
    · rw [if_neg isDirectory, if_neg isDirectory, List.nil_append]
      exact ih

lemma pending_of_closed (closed : walk.current = none) : walk.pending files = [] := by
  rw [pending, closed]
  rfl

lemma pending_of_open {o : OpenRoot} (isOpen : walk.current = some o) :
    walk.pending files = o.shown files := by
  rw [pending, isOpen]
  rfl

lemma upcoming_of_closed (closed : walk.current = none) :
    walk.upcoming files = walk.roots.flatMap (entries files) := by
  rw [upcoming, pending_of_closed closed, List.nil_append]

lemma upcoming_of_open {o : OpenRoot} (isOpen : walk.current = some o) :
    walk.upcoming files = o.shown files ++ walk.roots.flatMap (entries files) := by
  rw [upcoming, pending_of_open isOpen]

lemma visits_finish (tree : files.IsTree) (isListing : files.IsListing listing)
    (closed : walk.current = none) (ended : openNext files listing walk.roots = none) :
    walk.finish.upcoming files = [] ∧ Visits files walk [] walk.finish := by
  have nothing := flatMap_entries_of_openNext tree isListing walk.roots
  rw [ended, ← upcoming_of_closed closed] at nothing
  have finished : walk.finish.upcoming files = [] := upcoming_of_closed closed
  refine ⟨finished, rfl, rfl, rfl, ?_⟩
  rw [finished, nothing, List.append_nil]

lemma visits_enter (tree : files.IsTree) (isListing : files.IsListing listing) {o : OpenRoot}
    {roots : List Bytes} (closed : walk.current = none)
    (opened : openNext files listing walk.roots = some (o, roots)) :
    o.IsIn files ∧ Visits files walk [] (walk.enter o roots) := by
  have isFirst := flatMap_entries_of_openNext tree isListing walk.roots
  rw [opened, ← upcoming_of_closed closed] at isFirst
  exact ⟨isFirst.1, rfl, rfl, rfl, isFirst.2⟩

lemma visits_leave {o : OpenRoot} (isOpen : walk.current = some o) (exhausted : o.stack = []) :
    Visits files walk [] walk.leave := by
  refine ⟨rfl, rfl, rfl, ?_⟩
  rw [upcoming_of_open isOpen, OpenRoot.shown_of_exhausted exhausted]
  exact .refl _

lemma visits_pass (tree : files.IsTree) (isListing : files.IsListing listing) {o : OpenRoot}
    (isOpen : walk.current = some o) (isIn : o.IsIn files) {place : Location} {node : FileNode}
    {rest : List (Location × FileNode)} (shape : o.stack = (place, node) :: rest) :
    Visits files walk [fileAt files o.path place] (walk.pass files listing o place) := by
  refine ⟨rfl, rfl, rfl, ?_⟩
  have behind : (walk.pass files listing o place).current = some (o.advance listing) := by
    dsimp only [pass]
  rw [upcoming_of_open isOpen, upcoming_of_open behind, roots_pass, List.singleton_append,
    ← List.cons_append]
  exact (OpenRoot.shown_advance tree isListing isIn shape).append_right _

/-- A walk that is not over is sound wherever it is in the tree. -/
lemma isSound_of_going (going : walk.isDone = false) (isIn : ∀ o ∈ walk.current, o.IsIn files) :
    walk.IsSound files :=
  ⟨isIn, fun done => absurd (going.symm.trans done) Bool.false_ne_true⟩

lemma forall_mem_some {o : OpenRoot} (isIn : o.IsIn files) : ∀ o' ∈ some o, o'.IsIn files := by
  rintro o' ⟨⟩
  exact isIn

/-- Visiting some entries uses up the budget or ends the walk. -/
theorem visits_visit (tree : files.IsTree) (isListing : files.IsListing listing)
    (sound : walk.IsSound files) (going : walk.isDone = false) (budget : Nat) :
    let r := visit files listing walk budget
    r.2.IsSound files ∧ (r.1 ≠ 0 → r.2.isDone = true) ∧
      ∃ visited, visited.length + r.1 = budget ∧ Visits files walk visited r.2 := by
  -- Opening a root and leaving it visits nothing; only passing an entry takes one of the budget.
  fun_induction visit files listing walk budget with
  | case1 walk => exact ⟨sound, nofun, [], rfl, .refl walk⟩
  | case2 walk budget closed ended =>
    obtain ⟨nothing, ends⟩ := visits_finish tree isListing closed ended
    exact ⟨⟨sound.isIn, fun _ => nothing⟩, fun _ => rfl, [], Nat.zero_add _, ends⟩
  | case3 walk budget closed o roots opened ih =>
    obtain ⟨isIn, enters⟩ := visits_enter tree isListing closed opened
    have entered : (walk.enter o roots).IsSound files := isSound_of_going going (forall_mem_some isIn)
    obtain ⟨still, ends, visited, count, onward⟩ := ih entered going
    exact ⟨still, ends, visited, count, enters.trans onward⟩
  | case4 walk budget o isOpen exhausted ih =>
    have left : walk.leave.IsSound files := isSound_of_going going nofun
    obtain ⟨still, ends, visited, count, onward⟩ := ih left going
    exact ⟨still, ends, visited, count, (visits_leave isOpen exhausted).trans onward⟩
  | case5 walk budget o isOpen place node rest shape ih =>
    have isIn : o.IsIn files := sound.isIn o isOpen
    rw [← isDone_pass files listing walk o place] at going
    have passed : (walk.pass files listing o place).IsSound files :=
      isSound_of_going going (forall_mem_some (isIn.advance isListing))
    obtain ⟨still, ends, visited, count, onward⟩ := ih passed going
    refine ⟨still, ends, fileAt files o.path place :: visited, ?_,
      (visits_pass tree isListing isOpen isIn shape).trans onward⟩
    rw [List.length_cons]
    omega

lemma step_of_isDone (isDone : walk.isDone = true) : step files listing walk = (0, walk) := by
  rw [step, if_pos isDone]

/-- A step visits no more than the budget, and fewer entries only when nothing is left. -/
theorem visits_step (tree : files.IsTree) (isListing : files.IsListing listing)
    (sound : walk.IsSound files) :
    let r := step files listing walk
    r.2.IsSound files ∧ (r.1 ≠ walk.budget → r.2.isDone = true) ∧ r.1 ≤ walk.budget ∧
      ∃ visited, visited.length = r.1 ∧ Visits files walk visited r.2 := by
  by_cases isDone : walk.isDone = true
  · rw [step_of_isDone isDone]
    exact ⟨sound, fun _ => isDone, Nat.zero_le _, [], rfl, .refl walk⟩
  · rw [step, if_neg isDone]
    dsimp only
    obtain ⟨still, ends, visited, count, onward⟩ :=
      visits_visit tree isListing sound (Bool.eq_false_iff.2 isDone) walk.budget
    refine ⟨still, fun fewer => ends ?_, Nat.sub_le _ _, visited, ?_, onward⟩
    · intro usedUp
      exact fewer (by rw [usedUp, Nat.sub_zero])
    · omega

/-! ### A run -/

/-- The walk through some roots after some steps, with the number of entries that it has visited. -/
def run (files : FileTree) (listing : Listing) (roots suffixes : List Bytes) (budget n : Nat) :
    Nat × ModuleWalk :=
  steps (step files listing) n (new roots suffixes budget)

variable {roots suffixes : List Bytes} {budget : Nat}

lemma run_succ (files : FileTree) (listing : Listing) (roots suffixes : List Bytes) (budget n : Nat) :
    run files listing roots suffixes budget (n + 1) =
      let s := run files listing roots suffixes budget n
      (s.1 + (step files listing s.2).1, (step files listing s.2).2) := rfl

lemma upcoming_new : (new roots suffixes budget).upcoming files = roots.flatMap (entries files) :=
  upcoming_of_closed rfl

lemma isSound_new (files : FileTree) (roots suffixes : List Bytes) (budget : Nat) :
    (new roots suffixes budget).IsSound files where
  isIn := nofun
  complete none := by
    rw [upcoming_new, List.isEmpty_iff.1 none]
    rfl

/-- Until a walk is over, every step of it visits at least one entry. -/
theorem visits_run (tree : files.IsTree) (isListing : files.IsListing listing)
    (roots suffixes : List Bytes) (budget n : Nat) :
    let r := run files listing roots suffixes budget n
    r.2.IsSound files ∧ (r.2.isDone = true ∨ n ≤ r.1) ∧
      ∃ visited, visited.length = r.1 ∧ Visits files (new roots suffixes budget) visited r.2 := by
  induction n with
  | zero => exact ⟨isSound_new files roots suffixes budget, .inr (Nat.le_refl 0), [], rfl, .refl _⟩
  | succ n ih =>
    obtain ⟨sound, progress, visited, count, onward⟩ := ih
    obtain ⟨still, ends, -, more, moreCount, further⟩ := visits_step tree isListing sound
    rw [run_succ]
    dsimp only
    refine ⟨still, ?_, visited ++ more, ?_, onward.trans further⟩
    · rcases progress with isDone | many
      · rw [step_of_isDone isDone]
        exact .inl isDone
      · refine or_iff_not_imp_right.2 fun stuck => ends fun full => stuck ?_
        rw [full, onward.budget]
        exact Nat.add_le_add many (Nat.le_max_left 1 budget)
    · rw [List.length_append, count, moreCount]

/-- The walk ends. -/
theorem exists_isDone_run (tree : files.IsTree) (isListing : files.IsListing listing)
    (roots suffixes : List Bytes) (budget : Nat) :
    ∃ n, (run files listing roots suffixes budget n).2.isDone = true := by
  -- A walk that went on for so long would have visited more entries than there are.
  let n := (roots.flatMap (entries files)).length + 1
  obtain ⟨-, progress, visited, count, onward⟩ := visits_run tree isListing roots suffixes budget n
  refine ⟨n, progress.resolve_right fun many => ?_⟩
  have total := onward.upcoming.length_eq
  rw [upcoming_new, List.length_append, count] at total
  omega

end ModuleWalk
end CalcShell
