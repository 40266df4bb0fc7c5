import CalcShell.Proofs.Keyboard.Bindings
import Mathlib.Logic.Function.Basic

/-! Bindings in two tables, from keys to actions and from actions to keys. Both are changed key by key, and
still each remains the inverse of the other, and together they are a key map. -/
namespace CalcShell

structure KeyTables where
  /-- The action that a key is bound to. -/
  owner : Bytes → Option Action
  /-- The keys of an action, in the order in which they were given. -/
  keysFor : Action → List Bytes

namespace KeyTables

def lookup (t : KeyTables) (key : Bytes) : Action := (t.owner key).getD .ignore

/-- Unbinds the keys of an action. -/
def release (t : KeyTables) (action : Action) : KeyTables where
  owner := (t.keysFor action).foldl (fun owner key => Function.update owner key none) t.owner
  keysFor := Function.update t.keysFor action []

/-- Takes a key from the list of another action that has it. -/
def withdraw (t : KeyTables) (action : Action) (key : Bytes) : Action → List Bytes :=
  match t.owner key with
  | some other =>
    if other = action then t.keysFor
    else Function.update t.keysFor other ((t.keysFor other).filter (· != key))
  | none => t.keysFor

def give (action : Action) (t : KeyTables) (key : Bytes) : KeyTables :=
  let keysFor := t.withdraw action key
  { owner := Function.update t.owner key (some action)
    keysFor := Function.update keysFor action (keysFor action ++ [key]) }

/-- The tables afterwards, and the error if one of the keys has no known name. -/
def bind (t : KeyTables) (action : Action) (keys : List Bytes) : Option UnknownKey × KeyTables :=
  match keys.find? (!Key.isKnown ·) with
  | some key => (some ⟨action, key⟩, t)
  | none => (none, keys.foldl (give action) (t.release action))

def bindAll (t : KeyTables) (bindings : List (Action × List Bytes)) : KeyTables :=
  bindings.foldl (fun t binding => (t.bind binding.1 binding.2).2) t

/-- A key is bound to an action just when the action has it. -/
def IsInverse (t : KeyTables) : Prop := ∀ action key, t.owner key = some action ↔ key ∈ t.keysFor action

variable {t : KeyTables} {action other : Action} {key : Bytes} {keys : List Bytes}

/-! ### Key by key -/

lemma foldl_update_none (keys : List Bytes) (owner : Bytes → Option Action) (key : Bytes) :
    keys.foldl (fun owner key => Function.update owner key none) owner key =
      if key ∈ keys then none else owner key := by
  induction keys generalizing owner with
  | nil => rfl
  | cons first rest ih =>
    rw [List.foldl_cons, ih, Function.update_apply]
    grind

@[simp] lemma owner_release (t : KeyTables) (action : Action) (key : Bytes) :
    (t.release action).owner key = if key ∈ t.keysFor action then none else t.owner key :=
  foldl_update_none (t.keysFor action) t.owner key

@[simp] lemma keysFor_release (t : KeyTables) (action other : Action) :
    (t.release action).keysFor other = if other = action then [] else t.keysFor other :=
  Function.update_apply t.keysFor action [] other

lemma withdraw_self (t : KeyTables) (action : Action) (key : Bytes) :
    t.withdraw action key action = t.keysFor action := by
  unfold withdraw
  cases t.owner key with
  | none => rfl
  | some owner =>
    dsimp only
    split
    · rfl
    · rename_i away
      exact Function.update_of_ne (Ne.symm away) _ _

/-- An action that has no such key loses nothing. -/
lemma IsInverse.withdraw (inverse : t.IsInverse) (away : other ≠ action) (key : Bytes) :
    t.withdraw action key other = (t.keysFor other).filter (· != key) := by
  unfold KeyTables.withdraw
  by_cases has : key ∈ t.keysFor other
  · rw [(inverse other key).2 has]
    simp [away]
  · have same : (t.keysFor other).filter (· != key) = t.keysFor other := by
      refine List.filter_eq_self.2 fun k mem => ?_
      rw [bne_iff_ne]
      rintro rfl
      exact has mem
    rw [same]
    cases isOwner : t.owner key with
    | none => rfl
    | some owner =>
      have notOther : other ≠ owner := by
        rintro rfl
        exact has ((inverse other key).1 isOwner)
      dsimp only
      split
      · rfl
      · exact Function.update_of_ne notOther _ _

@[simp] lemma owner_give (t : KeyTables) (action : Action) (key k : Bytes) :
    (t.give action key).owner k = if k = key then some action else t.owner k :=
  Function.update_apply t.owner key (some action) k

lemma keysFor_give_self (t : KeyTables) (action : Action) (key : Bytes) :
    (t.give action key).keysFor action = t.keysFor action ++ [key] := by
  rw [← withdraw_self t action key]
  exact Function.update_self action _ _

lemma IsInverse.keysFor_give (inverse : t.IsInverse) (away : other ≠ action) (key : Bytes) :
    (t.give action key).keysFor other = (t.keysFor other).filter (· != key) := by
  rw [← inverse.withdraw away key]
  exact Function.update_of_ne away _ _

lemma IsInverse.release (inverse : t.IsInverse) (action : Action) : (t.release action).IsInverse := by
  intro other key
  have mine := inverse action key
  have theirs := inverse other key
  rw [owner_release, keysFor_release]
  grind

lemma IsInverse.give (inverse : t.IsInverse) (action : Action) (key : Bytes) :
    (t.give action key).IsInverse := by
  intro other k
  have theirs := inverse other k
  rw [owner_give]
  by_cases away : other = action
  · subst away
    rw [keysFor_give_self]
    grind
  · rw [inverse.keysFor_give away]
    grind

/-! ### One binding -/

/-- The keys of a binding come to its action in their order, and every other action keeps its keys but for
those. -/
lemma IsInverse.foldl_give (inverse : t.IsInverse) (action : Action) (keys : List Bytes) :
    (keys.foldl (KeyTables.give action) t).IsInverse ∧
      (keys.foldl (KeyTables.give action) t).keysFor action = t.keysFor action ++ keys ∧
      ∀ other ≠ action, (keys.foldl (KeyTables.give action) t).keysFor other =
        (t.keysFor other).filter (!keys.contains ·) := by
  induction keys generalizing t with
  | nil => exact ⟨inverse, (List.append_nil _).symm, fun other _ => (List.filter_eq_self.2 (by simp)).symm⟩
  | cons key rest ih =>
    obtain ⟨still, mine, theirs⟩ := ih (inverse.give action key)
    rw [List.foldl_cons]
    refine ⟨still, ?_, fun other away => ?_⟩
    · rw [mine, keysFor_give_self, List.append_assoc, List.singleton_append]
    · rw [theirs other away, inverse.keysFor_give away, List.filter_filter]
      congr 1
      funext k
      rw [List.contains_cons, Bool.not_or, Bool.and_comm]
      rfl

/-- Everything that a binding can do. -/
lemma IsInverse.bind_cases (inverse : t.IsInverse) (action : Action) (keys : List Bytes) :
    (∃ key ∈ keys, Key.isKnown key = false ∧ t.bind action keys = (some ⟨action, key⟩, t)) ∨
      (∀ key ∈ keys, Key.isKnown key = true) ∧ ∃ next, t.bind action keys = (none, next) ∧ next.IsInverse ∧
        next.keysFor action = keys ∧
        ∀ other ≠ action, next.keysFor other = (t.keysFor other).filter (!keys.contains ·) := by
  unfold KeyTables.bind
  cases found : keys.find? (!Key.isKnown ·) with
  | some key =>
    refine .inl ⟨key, List.mem_of_find?_eq_some found, ?_, rfl⟩
    simpa using List.find?_some found
  | none =>
    have known : ∀ key ∈ keys, Key.isKnown key = true := by simpa using found
    obtain ⟨still, mine, theirs⟩ := (inverse.release action).foldl_give action keys
    refine .inr ⟨known, _, rfl, still, ?_, fun other away => ?_⟩
    · rw [mine, keysFor_release, if_pos rfl, List.nil_append]
    · rw [theirs other away, keysFor_release, if_neg away]

/-- Inverse tables are told by one of them. -/
lemma IsInverse.ext {t' : KeyTables} (inverse : t.IsInverse) (inverse' : t'.IsInverse)
    (same : ∀ action, t.keysFor action = t'.keysFor action) : t = t' := by
  have owner : t.owner = t'.owner := by
    funext key
    apply Option.ext
    intro action
    rw [inverse, inverse', same]
  cases t
  cases t'
  cases owner
  cases funext same
  rfl

end KeyTables

namespace KeyMap

/-- Both sides of a key map. -/
def tables (map : KeyMap) : KeyTables where
  owner key := (map.bindings.find? (·.2.contains key)).map (·.1)
  keysFor := map.keysFor

/-- A refused binding changes nothing. -/
def bindAll (map : KeyMap) (bindings : List (Action × List Bytes)) : KeyMap :=
  bindings.foldl (fun map binding => (map.bind binding.1 binding.2).toOption.getD map) map

/-- No action is bound twice, and no key to two actions. -/
structure IsConsistent (map : KeyMap) : Prop where
  actions : (map.bindings.map (·.1)).Nodup
  keys : map.bindings.Pairwise fun a b => ∀ key ∈ a.2, key ∉ b.2

variable {map : KeyMap} {action other : Action}

lemma lookup_tables (map : KeyMap) (key : Bytes) : map.tables.lookup key = map.lookup key := rfl

lemma IsConsistent.assign (consistent : map.IsConsistent) (action : Action) (keys : List Bytes) :
    (map.assign action keys).IsConsistent where
  actions := by
    have others : ((map.bindings.filter (·.1 != action)).map (·.1)).Nodup :=
      consistent.actions.sublist (List.filter_sublist.map _)
    simpa [KeyMap.assign, Function.comp_def] using others
  keys := by
    refine List.pairwise_cons.2 ⟨?_, ?_⟩
    · intro binding mem key bound
      obtain ⟨kept, -, rfl⟩ := List.mem_map.1 mem
      simp [bound]
    · refine (consistent.keys.sublist List.filter_sublist).map _ fun a b apart => ?_
      intro key inA inB
      exact apart key (List.mem_filter.1 inA).1 (List.mem_filter.1 inB).1

lemma owner_cons (owner : Action) (theirs : List Bytes) (rest : List (Action × List Bytes)) (key : Bytes) :
    (tables ⟨(owner, theirs) :: rest⟩).owner key =
      if key ∈ theirs then some owner else (tables ⟨rest⟩).owner key := by
  by_cases here : key ∈ theirs <;> simp [tables, here]

lemma keysFor_cons (owner : Action) (theirs : List Bytes) (rest : List (Action × List Bytes))
    (action : Action) :
    keysFor ⟨(owner, theirs) :: rest⟩ action = if action = owner then theirs else keysFor ⟨rest⟩ action := by
  rw [keysFor, List.lookup_cons]
  by_cases same : action = owner
  · simp [same]
  · rw [beq_false_of_ne same, if_neg same]
    rfl

lemma exists_of_owner {key : Bytes} (bound : map.tables.owner key = some action) :
    ∃ keys, (action, keys) ∈ map.bindings := by
  obtain ⟨⟨owner, keys⟩, found, rfl⟩ := Option.map_eq_some_iff.1 bound
  exact ⟨keys, List.mem_of_find?_eq_some found⟩

lemma exists_of_mem_keysFor {key : Bytes} (has : key ∈ map.keysFor action) :
    ∃ keys, (action, keys) ∈ map.bindings ∧ key ∈ keys := by
  rw [keysFor] at has
  cases found : map.bindings.lookup action with
  | none => simp [found] at has
  | some keys =>
    obtain ⟨front, back, whole, -⟩ := List.lookup_eq_some_iff.1 found
    rw [found, Option.getD_some] at has
    exact ⟨keys, by simp [whole], has⟩

lemma IsConsistent.isInverse (consistent : map.IsConsistent) : map.tables.IsInverse := by
  intro action key
  obtain ⟨bindings⟩ := map
  induction bindings with
  | nil => simp [tables, keysFor]
  | cons binding rest ih =>
    obtain ⟨owner, theirs⟩ := binding
    obtain ⟨notOwner, actions⟩ := List.nodup_cons.1 consistent.actions
    obtain ⟨apart, keys⟩ := List.pairwise_cons.1 consistent.keys
    have behind : (tables ⟨rest⟩).owner key = some action ↔ key ∈ keysFor ⟨rest⟩ action :=
      ih ⟨actions, keys⟩
    change _ ↔ key ∈ keysFor _ action
    rw [owner_cons, keysFor_cons]
    by_cases mine : action = owner
    · subst mine
      have notBehind : (tables ⟨rest⟩).owner key ≠ some action := by
        intro bound
        obtain ⟨keys, mem⟩ := exists_of_owner bound
        exact notOwner (List.mem_map.2 ⟨_, mem, rfl⟩)
      simp [notBehind]
    · have notHere : key ∈ theirs → key ∉ keysFor ⟨rest⟩ action := by
        intro here has
        obtain ⟨keys, mem, isKey⟩ := exists_of_mem_keysFor has
        exact apart _ mem key here isKey
      grind

lemma lookup_filter_map (bindings : List (Action × List Bytes)) (away : other ≠ action)
    (keys : List Bytes) :
    ((bindings.filter (·.1 != action)).map fun (other, theirs) =>
        (other, theirs.filter (!keys.contains ·))).lookup other =
      (bindings.lookup other).map (·.filter (!keys.contains ·)) := by
  induction bindings with
  | nil => rfl
  | cons binding rest ih =>
    obtain ⟨owner, theirs⟩ := binding
    by_cases mine : owner = action
    · subst mine
      rw [List.filter_cons_of_neg (by simp), ih, List.lookup_cons, beq_false_of_ne away]
    · rw [List.filter_cons_of_pos (by simpa using mine), List.map_cons, List.lookup_cons, List.lookup_cons,
        ih]
      cases other == owner <;> rfl

lemma keysFor_assign_of_ne (map : KeyMap) (away : other ≠ action) (keys : List Bytes) :
    (map.assign action keys).keysFor other = (map.keysFor other).filter (!keys.contains ·) := by
  rw [keysFor, assign, List.lookup_cons, beq_false_of_ne away]
  dsimp only
  rw [lookup_filter_map _ away, keysFor]
  cases map.bindings.lookup other <;> rfl

/-- Binding key by key in the tables is binding in the map. -/
lemma IsConsistent.bind_tables (consistent : map.IsConsistent) (action : Action) (keys : List Bytes) :
    map.tables.bind action keys =
      match map.bind action keys with
      | .ok next => (none, next.tables)
      | .error e => (some e, map.tables) := by
  unfold KeyMap.bind KeyTables.bind
  cases keys.find? (!Key.isKnown ·) with
  | some key => rfl
  | none =>
    dsimp only
    obtain ⟨still, mine, theirs⟩ := (consistent.isInverse.release action).foldl_give action keys
    congr 1
    refine still.ext (consistent.assign action keys).isInverse fun other => ?_
    change _ = (map.assign action keys).keysFor other
    by_cases away : other = action
    · subst away
      rw [mine, KeyTables.keysFor_release, if_pos rfl, keysFor_assign_self, List.nil_append]
    · rw [theirs other away, KeyTables.keysFor_release, if_neg away, keysFor_assign_of_ne map away]
      rfl

lemma IsConsistent.bind {next : KeyMap} {keys : List Bytes} (consistent : map.IsConsistent)
    (bound : map.bind action keys = .ok next) : next.IsConsistent := by
  unfold KeyMap.bind at bound
  split at bound
  · cases bound
  · cases bound
    exact consistent.assign action keys

lemma IsBuilt.isConsistent (built : map.IsBuilt) : map.IsConsistent := by
  induction built with
  | empty => exact ⟨.nil, .nil⟩
  | defaults => exact ⟨by decide, by decide⟩
  | bind _ bound ih => exact ih.bind bound

lemma IsConsistent.bindAll_tables (consistent : map.IsConsistent)
    (bindings : List (Action × List Bytes)) :
    (map.bindAll bindings).IsConsistent ∧
      map.tables.bindAll bindings = (map.bindAll bindings).tables := by
  induction bindings generalizing map with
  | nil => exact ⟨consistent, rfl⟩
  | cons binding rest ih =>
    rw [bindAll, KeyTables.bindAll, List.foldl_cons, List.foldl_cons,
      consistent.bind_tables binding.1 binding.2]
    cases bound : map.bind binding.1 binding.2 with
    | ok next => exact ih (consistent.bind bound)
    | error e => exact ih consistent

/-- The keys that are bound at first are bound one action after the other. -/
lemma tables_defaults : KeyMap.defaults.tables = KeyMap.empty.tables.bindAll KeyMap.defaults.bindings := by
  obtain ⟨consistent, same⟩ := IsBuilt.empty.isConsistent.bindAll_tables KeyMap.defaults.bindings
  rw [same]
  have bound : ∀ action ∈ Action.all, KeyMap.defaults.keysFor action =
      (KeyMap.empty.bindAll KeyMap.defaults.bindings).keysFor action := by
    decide +kernel
  exact IsBuilt.defaults.isConsistent.isInverse.ext consistent.isInverse fun action =>
    bound action (Action.mem_all action)

/-- Whatever is bound, the tables stay those of one key map. A key is bound to an action just when the
action has it, so no two actions have the same key. A binding with an unknown key is refused and changes
nothing; any other gives the action just these keys, and takes just these from every other action. -/
theorem tables_stay_inverse {start : KeyMap} (built : start.IsBuilt)
    (bindings : List (Action × List Bytes)) :
    let tables := start.tables.bindAll bindings
    tables = (start.bindAll bindings).tables ∧
      (∀ action ≠ .ignore, ∀ key, tables.lookup key = action ↔ key ∈ tables.keysFor action) ∧
      (∀ key action other, key ∈ tables.keysFor action → key ∈ tables.keysFor other → action = other) ∧
      ∀ action keys,
        (∃ key ∈ keys, Key.isKnown key = false ∧
          tables.bind action keys = (some ⟨action, key⟩, tables)) ∨
        (∀ key ∈ keys, Key.isKnown key = true) ∧ ∃ next, tables.bind action keys = (none, next) ∧
          next.keysFor action = keys ∧
          ∀ other ≠ action, next.keysFor other = (tables.keysFor other).filter (!keys.contains ·) := by
  intro tables
  obtain ⟨consistent, same⟩ := built.isConsistent.bindAll_tables bindings
  have inverse : tables.IsInverse := by
    rw [show tables = (start.bindAll bindings).tables from same]
    exact consistent.isInverse
  refine ⟨same, fun action bound key => ?_, fun key action other mine theirs => ?_, fun action keys => ?_⟩
  · rw [← inverse action key, KeyTables.lookup]
    cases tables.owner key with
    | none => simpa using Ne.symm bound
    | some owner => simp
  · rw [← inverse] at mine theirs
    exact Option.some.inj (mine.symm.trans theirs)
  · rcases inverse.bind_cases action keys with
      refused | ⟨known, next, bound, -, mine, theirs⟩
    · exact .inl refused
    · exact .inr ⟨known, next, bound, mine, theirs⟩

/-- A key that is listed twice leaves the action that had it, and a binding with an unknown key leaves it
where it is then. -/
theorem tables_stay_inverse_moved_key :
    let tables := KeyMap.defaults.tables.bindAll
      [(.exit, [bytes "C-d", bytes "C-d"]), (.yank, [bytes "C-d", bytes "C-ä"])]
    KeyMap.defaults.IsBuilt ∧ tables.keysFor .exit = [bytes "C-d", bytes "C-d"] ∧
      tables.keysFor .deleteForward = [bytes "KEY_DC"] ∧ tables.lookup (bytes "C-d") = .exit ∧
      tables.lookup (bytes "C-y") = .yank := by
  intro tables
  obtain ⟨same, inverse, -, -⟩ := tables_stay_inverse .defaults
    [(.exit, [bytes "C-d", bytes "C-d"]), (.yank, [bytes "C-d", bytes "C-ä"])]
  have exits : tables.keysFor .exit = [bytes "C-d", bytes "C-d"] := by
    rw [show tables = _ from same]
    decide +kernel
  refine ⟨.defaults, exits, ?_, (inverse .exit (by decide) _).2 ?_, ?_⟩
  · rw [show tables = _ from same]
    decide +kernel
  · rw [show tables.keysFor .exit = _ from exits]
    exact List.mem_cons_self
  · rw [show tables = _ from same, lookup_tables]
    decide +kernel

end KeyMap
end CalcShell
