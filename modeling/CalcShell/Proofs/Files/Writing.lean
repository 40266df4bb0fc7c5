import CalcShell.Files.Tree
import Mathlib.Tactic.Lemma

/-! A file that was written is read back as it was written. Writing a file makes and removes no
directory, so every path leads where it led before. -/
namespace CalcShell.FileTree

variable {tree tree' : FileTree} {place other : Location} {node : FileNode}

lemma get?_put_self (inside : place ≠ []) : (tree.put place node).get? place = some node := by
  simp [get?, put, inside]

lemma lookup_filter_ne (away : other ≠ place) (nodes : List (Location × FileNode)) :
    (nodes.filter (·.1 != place)).lookup other = nodes.lookup other := by
  induction nodes with
  | nil => rfl
  | cons entry nodes ih =>
    obtain ⟨here, there⟩ := entry
    by_cases same : here = place
    · subst same
      have differs : (other == here) = false := beq_false_of_ne away
      simp [List.lookup_cons, differs, ih]
    · rw [List.filter_cons_of_pos (by simpa using same), List.lookup_cons, List.lookup_cons, ih]

lemma get?_put_of_ne (away : other ≠ place) : (tree.put place node).get? other = tree.get? other := by
  have differs : (other == place) = false := beq_false_of_ne away
  simp only [get?, put, List.lookup_cons, differs, lookup_filter_ne away]

/-- A step of a path depends on the directories alone. -/
lemma enter?_congr
    (same : ∀ place, tree'.get? place = some .directory ↔ tree.get? place = some .directory)
    (place : Location) (component : Bytes) : tree'.enter? place component = tree.enter? place component := by
  have differs : (tree'.get? place != some .directory) = (tree.get? place != some .directory) := by
    rw [Bool.eq_iff_iff, bne_iff_ne, bne_iff_ne]
    exact not_congr (same place)
  rw [enter?, enter?, differs]

lemma resolve?_congr (working : tree'.working = tree.working)
    (same : ∀ place, tree'.get? place = some .directory ↔ tree.get? place = some .directory)
    (path : Bytes) : tree'.resolve? path = tree.resolve? path := by
  have enters : tree'.enter? = tree.enter? := by
    funext place component
    exact enter?_congr same place component
  rw [resolve?, resolve?, enters]
  simp only [start, working]

/-- What is put in the place of something else than a directory makes no directory of it. -/
lemma get?_put_eq_directory_iff (free : tree.get? place ≠ some .directory) (content : Bytes)
    (other : Location) :
    (tree.put place (.file content)).get? other = some .directory ↔ tree.get? other = some .directory := by
  by_cases here : other = place
  · subst here
    have inside : other ≠ [] := by
      rintro rfl
      exact free rfl
    rw [get?_put_self inside]
    exact iff_of_false (by simp) free
  · rw [get?_put_of_ne here]

/-- A file can be written at a path: its directory is there, and none is in its place. -/
def IsWritable (tree : FileTree) (path : Bytes) : Prop :=
  ∃ place, tree.resolve? path = some place ∧ tree.get? place.dropLast = some .directory ∧
    tree.get? place ≠ some .directory

lemma IsWritable.exists_write? {path : Bytes} (writable : tree.IsWritable path) (content : Bytes) :
    ∃ tree', tree.write? path content = some tree' := by
  obtain ⟨place, resolved, parent, free⟩ := writable
  refine ⟨tree.put place (.file content), ?_⟩
  unfold write?
  rw [resolved, Option.bind_eq_bind, Option.bind_some, parent, if_neg (by simp), if_neg free]

/-- Where a file is written, and what the tree is then. -/
lemma of_write? {path content : Bytes} (written : tree.write? path content = some tree') :
    ∃ place, tree.resolve? path = some place ∧ tree.get? place.dropLast = some .directory ∧
      tree.get? place ≠ some .directory ∧ tree' = tree.put place (.file content) := by
  unfold write? at written
  obtain ⟨place, resolved, written⟩ := Option.bind_eq_some_iff.1 written
  split at written
  · cases written
  · rename_i isParent
    split at written
    · cases written
    · rename_i free
      cases written
      exact ⟨place, resolved, by simpa using isParent, free, rfl⟩

lemma put_put (tree : FileTree) (place : Location) (node : FileNode) :
    (tree.put place node).put place node = tree.put place node := by
  simp [put]

/-- What was written is there, and writing it once more changes nothing. -/
theorem read?_of_write? {path content : Bytes} (written : tree.write? path content = some tree') :
    tree'.read? path = some content ∧ tree'.write? path content = some tree' := by
  obtain ⟨place, resolved, parent, free, rfl⟩ := of_write? written
  have same := get?_put_eq_directory_iff free content
  have resolved' : (tree.put place (.file content)).resolve? path = some place :=
    (resolve?_congr (by rfl) same path).trans resolved
  have inside : place ≠ [] := by
    rintro rfl
    exact free rfl
  constructor
  · rw [read?, node?, resolved', Option.bind_some, get?_put_self inside]
  · have parent' := (same place.dropLast).2 parent
    have free' := mt (same place).1 free
    unfold write?
    rw [resolved', Option.bind_eq_bind, Option.bind_some, parent', if_neg (by simp), if_neg free', put_put]

end CalcShell.FileTree
