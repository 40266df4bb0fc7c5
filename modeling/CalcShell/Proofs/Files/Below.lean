import CalcShell.Proofs.Files.Writing
import Mathlib.Data.List.Induction
import Mathlib.Data.List.Nodup
import Mathlib.Tactic.Lemma

/-! What lies below a directory: its entries, and behind each of them what lies below that. -/
namespace CalcShell

/-! ### Order -/

/-- Of two lists of which the first is less, and not because it is the beginning of the second, every
longer one is less too. -/
lemma append_lt_append_of_differs {α : Type} [LT α] {a b : List α} (less : a < b)
    (differs : ¬a <+: b) (x y : List α) : a ++ x < b ++ y := by
  induction a generalizing b with
  | nil => exact absurd (List.nil_prefix) differs
  | cons first a ih =>
    cases b with
    | nil => cases less
    | cons second b =>
      rw [List.cons_append, List.cons_append, List.cons_lt_cons_iff]
      rcases List.cons_lt_cons_iff.1 less with lower | ⟨rfl, behind⟩
      · exact .inl lower
      · refine .inr ⟨rfl, ih behind fun isPrefix => differs ?_⟩
        exact (List.prefix_cons_inj first).2 isPrefix

namespace FileTree

variable {files : FileTree} {place rest : Location} {name : Bytes} {node : FileNode}

/-- Every place is there once, and in a directory. -/
structure IsTree (files : FileTree) : Prop where
  distinct : (files.nodes.map (·.1)).Nodup
  inside : ∀ entry ∈ files.nodes, entry.1 ≠ [] ∧ files.get? entry.1.dropLast = some .directory

lemma IsTree.get?_eq_some_iff (tree : files.IsTree) (some : place ≠ []) :
    files.get? place = .some node ↔ (place, node) ∈ files.nodes := by
  rw [get?, if_neg (by simpa using some), List.lookup_eq_some_iff]
  constructor
  · rintro ⟨front, back, whole, -⟩
    simp [whole]
  · intro mem
    obtain ⟨front, back, whole⟩ := List.append_of_mem mem
    refine ⟨front, back, whole, fun entry isFront => ?_⟩
    have distinct := tree.distinct
    rw [whole, List.map_append, List.map_cons, List.nodup_append] at distinct
    rw [bne_iff_ne]
    exact (distinct.2.2 entry.1 (List.mem_map_of_mem isFront) place List.mem_cons_self).symm

lemma IsTree.node_inj (tree : files.IsTree) {node' : FileNode} (mem : (place, node) ∈ files.nodes)
    (mem' : (place, node') ∈ files.nodes) : node = node' := by
  have some := (tree.inside _ mem).1
  rw [← tree.get?_eq_some_iff some] at mem mem'
  exact Option.some.inj (mem.symm.trans mem')

/-- Whatever has something below it is a directory. -/
lemma IsTree.directory_of_mem (tree : files.IsTree) (some : place ≠ []) (deeper : rest ≠ [])
    (mem : (place ++ rest, node) ∈ files.nodes) : (place, .directory) ∈ files.nodes := by
  induction rest using List.reverseRecOn generalizing node with
  | nil => exact absurd rfl deeper
  | append_singleton rest last ih =>
    have parent := (tree.inside _ mem).2
    rw [← List.append_assoc, List.dropLast_concat, tree.get?_eq_some_iff (by simp [some])] at parent
    cases rest with
    | nil => simpa using parent
    | cons first rest => exact ih (List.cons_ne_nil _ _) parent

/-- Writing a file keeps a tree. -/
theorem IsTree.write? (tree : files.IsTree) {files' : FileTree} {path content : Bytes}
    (written : files.write? path content = some files') : files'.IsTree := by
  obtain ⟨place, -, parent, free, rfl⟩ := of_write? written
  have same := get?_put_eq_directory_iff free content
  have some : place ≠ [] := by
    rintro rfl
    exact free rfl
  constructor
  · rw [put, List.map_cons, List.nodup_cons]
    exact ⟨by simp, tree.distinct.sublist (List.filter_sublist.map _)⟩
  · intro entry mem
    rw [same]
    rcases List.mem_cons.1 mem with rfl | mem
    · exact ⟨some, parent⟩
    · exact tree.inside entry (List.mem_of_mem_filter mem)

/-! ### Entries -/

/-- A node with its place behind a directory, if it is below that. -/
def behind? (place : Location) (entry : Location × FileNode) : Option (Location × FileNode) :=
  if place.isPrefixOf entry.1 && entry.1 != place then some (entry.1.drop place.length, entry.2) else none

/-- A node with its name, if it is directly inside of a directory. -/
def inside? (place : Location) (entry : Location × FileNode) : Option (Bytes × FileNode) :=
  match entry.1.getLast? with
  | some name => if entry.1.dropLast = place then some (name, entry.2) else none
  | none => none

lemma behind?_eq_some_iff {entry : Location × FileNode} :
    behind? place entry = some (rest, node) ↔ rest ≠ [] ∧ entry = (place ++ rest, node) := by
  obtain ⟨location, n⟩ := entry
  rw [behind?]
  constructor
  · intro shown
    split at shown
    · rename_i isBelow
      rw [Bool.and_eq_true, List.isPrefixOf_iff_prefix, bne_iff_ne] at isBelow
      obtain ⟨⟨deeper, rfl⟩, some⟩ := isBelow
      rw [List.drop_left] at shown
      cases shown
      exact ⟨by simpa using some, rfl⟩
    · cases shown
  · rintro ⟨some, same⟩
    cases same
    rw [if_pos (by simpa using some), List.drop_left]

lemma inside?_eq_some_iff {entry : Location × FileNode} :
    inside? place entry = some (name, node) ↔ entry = (place ++ [name], node) := by
  obtain ⟨location, n⟩ := entry
  rw [inside?]
  constructor
  · intro shown
    cases last : location.getLast? with
    | none => simp [last] at shown
    | some final =>
      obtain ⟨front, rfl⟩ := List.getLast?_eq_some_iff.1 last
      simp only [last, List.dropLast_concat] at shown
      split at shown
      · rename_i here
        cases shown
        rw [here]
      · cases shown
  · intro same
    cases same
    simp

lemma below_eq (files : FileTree) (place : Location) :
    files.below place = (files.nodes.filterMap (behind? place)).mergeSort fun a b => decide (a.1 ≤ b.1) :=
  rfl

lemma children_eq (files : FileTree) (place : Location) :
    files.children place = files.nodes.filterMap (inside? place) := rfl

lemma mem_below_iff : (rest, node) ∈ files.below place ↔
    rest ≠ [] ∧ (place ++ rest, node) ∈ files.nodes := by
  simp [below_eq, behind?_eq_some_iff, and_comm]

lemma mem_children_iff : (name, node) ∈ files.children place ↔ (place ++ [name], node) ∈ files.nodes := by
  simp [children_eq, inside?_eq_some_iff]

lemma IsTree.nodup_nodes (tree : files.IsTree) : files.nodes.Nodup := .of_map _ tree.distinct

lemma IsTree.nodup_below (tree : files.IsTree) (place : Location) : (files.below place).Nodup := by
  rw [below_eq, (List.mergeSort_perm _ _).nodup_iff]
  refine tree.nodup_nodes.filterMap fun entry entry' shown isShown isShown' => ?_
  rw [(behind?_eq_some_iff.1 isShown).2, (behind?_eq_some_iff.1 isShown').2]

lemma IsTree.nodup_children (tree : files.IsTree) (place : Location) : (files.children place).Nodup := by
  rw [children_eq]
  refine tree.nodup_nodes.filterMap fun entry entry' shown isShown isShown' => ?_
  rw [inside?_eq_some_iff.1 isShown, inside?_eq_some_iff.1 isShown']

/-! ### Seen from a root -/

/-- The entries of a directory below a root, with their places behind the root. -/
def entriesAt (files : FileTree) (root place : Location) : List (Location × FileNode) :=
  (files.children (root ++ place)).map fun entry => (place ++ [entry.1], entry.2)

/-- All that lies below a place behind a root, with the places behind the root. -/
def allBelow (files : FileTree) (root place : Location) : List (Location × FileNode) :=
  (files.below (root ++ place)).map fun entry => (place ++ entry.1, entry.2)

/-- An entry and all that lies below it. -/
def withBelow (files : FileTree) (root : Location) (entry : Location × FileNode) :
    List (Location × FileNode) := entry :: files.allBelow root entry.1

variable {root deep : Location}

lemma allBelow_nil (files : FileTree) (root : Location) : files.allBelow root [] = files.below root := by
  simp [allBelow]

lemma mem_entriesAt_iff : (deep, node) ∈ files.entriesAt root place ↔
    ∃ name, deep = place ++ [name] ∧ (root ++ deep, node) ∈ files.nodes := by
  rw [entriesAt, List.mem_map]
  constructor
  · rintro ⟨⟨name, n⟩, mem, same⟩
    cases same
    exact ⟨name, rfl, by simpa [mem_children_iff] using mem⟩
  · rintro ⟨name, rfl, mem⟩
    exact ⟨(name, node), by simpa [mem_children_iff] using mem, rfl⟩

lemma mem_allBelow_iff : (deep, node) ∈ files.allBelow root place ↔
    ∃ rest, rest ≠ [] ∧ deep = place ++ rest ∧ (root ++ deep, node) ∈ files.nodes := by
  rw [allBelow, List.mem_map]
  constructor
  · rintro ⟨⟨rest, n⟩, mem, same⟩
    cases same
    obtain ⟨some, mem⟩ := mem_below_iff.1 mem
    exact ⟨rest, some, rfl, by simpa using mem⟩
  · rintro ⟨rest, some, rfl, mem⟩
    exact ⟨(rest, node), mem_below_iff.2 ⟨some, by simpa using mem⟩, rfl⟩

lemma IsTree.nodup_entriesAt (tree : files.IsTree) (root place : Location) :
    (files.entriesAt root place).Nodup := by
  refine (tree.nodup_children _).map ?_
  rintro ⟨name, n⟩ ⟨name', n'⟩ same
  simpa using same

lemma IsTree.nodup_allBelow (tree : files.IsTree) (root place : Location) :
    (files.allBelow root place).Nodup := by
  refine (tree.nodup_below _).map ?_
  rintro ⟨rest, n⟩ ⟨rest', n'⟩ same
  simpa using same

/-- Nothing lies below a file. -/
lemma IsTree.allBelow_file (tree : files.IsTree) {content : Bytes} (some : place ≠ [])
    (isFile : (root ++ place, .file content) ∈ files.nodes) : files.allBelow root place = [] := by
  rw [List.eq_nil_iff_forall_not_mem]
  rintro ⟨deep, node⟩ mem
  obtain ⟨rest, deeper, rfl, mem⟩ := mem_allBelow_iff.1 mem
  rw [← List.append_assoc] at mem
  have isDirectory := tree.directory_of_mem (by simp [some]) deeper mem
  cases tree.node_inj isFile isDirectory

lemma prefix_of_mem_withBelow {entry shown : Location × FileNode}
    (mem : shown ∈ files.withBelow root entry) : entry.1 <+: shown.1 := by
  rcases List.mem_cons.1 mem with rfl | mem
  · exact List.prefix_refl _
  · obtain ⟨rest, -, same, -⟩ := mem_allBelow_iff.1 mem
    exact ⟨rest, same.symm⟩

/-- Entries of a directory have nothing below them in common. -/
lemma IsTree.eq_of_mem_of_mem (tree : files.IsTree) {entry entry' shown : Location × FileNode}
    (isEntry : entry ∈ files.entriesAt root place) (isEntry' : entry' ∈ files.entriesAt root place)
    (mem : shown ∈ files.withBelow root entry) (mem' : shown ∈ files.withBelow root entry') :
    entry = entry' := by
  obtain ⟨there, node⟩ := entry
  obtain ⟨there', node'⟩ := entry'
  obtain ⟨name, rfl, isNode⟩ := mem_entriesAt_iff.1 isEntry
  obtain ⟨name', rfl, isNode'⟩ := mem_entriesAt_iff.1 isEntry'
  have isPrefix := List.prefix_of_prefix_length_le (prefix_of_mem_withBelow mem)
    (prefix_of_mem_withBelow mem') (by simp)
  have same : place ++ [name] = place ++ [name'] := isPrefix.eq_of_length (by simp)
  rw [← same] at isNode' ⊢
  rw [tree.node_inj isNode isNode']

/-- Below a directory lie its entries, and what lies below each of them. -/
theorem IsTree.allBelow_perm (tree : files.IsTree) (root place : Location) :
    (files.allBelow root place).Perm ((files.entriesAt root place).flatMap (files.withBelow root)) := by
  have nodup : ((files.entriesAt root place).flatMap (files.withBelow root)).Nodup := by
    refine List.nodup_flatMap.2 ⟨fun entry _ => List.nodup_cons.2 ⟨?_, tree.nodup_allBelow root _⟩, ?_⟩
    · intro mem
      obtain ⟨rest, deeper, same, -⟩ := mem_allBelow_iff.1 mem
      exact deeper (by simpa using same)
    · refine (tree.nodup_entriesAt root place).imp_of_mem fun {entry entry'} mem mem' differ => ?_
      intro shown shownIn shownIn'
      exact differ (tree.eq_of_mem_of_mem mem mem' shownIn shownIn')
  refine (List.perm_ext_iff_of_nodup (tree.nodup_allBelow root place) nodup).2 ?_
  rintro ⟨deep, node⟩
  rw [List.mem_flatMap, mem_allBelow_iff]
  constructor
  · rintro ⟨rest, some, rfl, mem⟩
    obtain ⟨name, rest, rfl⟩ := List.exists_cons_of_ne_nil some
    cases rest with
    | nil => exact ⟨(place ++ [name], node), mem_entriesAt_iff.2 ⟨name, rfl, mem⟩, List.mem_cons_self⟩
    | cons next rest =>
      have split : place ++ name :: next :: rest = place ++ [name] ++ next :: rest := by simp
      have isBelow : (root ++ (place ++ [name]) ++ next :: rest, node) ∈ files.nodes := by
        rwa [List.append_assoc, ← split]
      have isDirectory := tree.directory_of_mem (by simp) (List.cons_ne_nil next rest) isBelow
      refine ⟨_, mem_entriesAt_iff.2 ⟨name, rfl, isDirectory⟩, List.mem_cons_of_mem _ ?_⟩
      exact mem_allBelow_iff.2 ⟨_, List.cons_ne_nil next rest, split, mem⟩
  · rintro ⟨⟨there, n⟩, isEntry, mem⟩
    obtain ⟨name, rfl, isNode⟩ := mem_entriesAt_iff.1 isEntry
    rcases List.mem_cons.1 mem with same | mem
    · cases same
      exact ⟨[name], by simp, rfl, isNode⟩
    · obtain ⟨rest, -, rfl, isBelow⟩ := mem_allBelow_iff.1 mem
      exact ⟨name :: rest, by simp, by simp, isBelow⟩

end FileTree
end CalcShell
