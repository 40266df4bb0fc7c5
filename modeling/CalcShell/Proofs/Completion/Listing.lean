import CalcShell.Calc.Names
import CalcShell.Proofs.Completion.Words
import Mathlib.Data.List.Sort
import Mathlib.Data.List.TakeDrop

/-! What a refresh lists: every candidate of the source that the line asks for, once, in an order that
leaves no two candidates equal. -/
namespace CalcShell

/-! ### Texts and tables -/

namespace Bytes

lemma cutFirst?_eq (sep : UInt8) (text : Bytes) :
    cutFirst? sep text =
      match text.dropWhile (· != sep) with
      | [] => none
      | _ :: right => some (text.takeWhile (· != sep), right) := by
  rw [cutFirst?, List.span_eq_takeWhile_dropWhile]
  cases text.dropWhile (· != sep) <;> rfl

/-- A text is cut behind its first part without separators. -/
lemma cutFirst?_eq_some_iff {sep : UInt8} {text left right : Bytes} :
    cutFirst? sep text = some (left, right) ↔ text = left ++ sep :: right ∧ sep ∉ left := by
  rw [cutFirst?_eq]
  constructor
  · intro cut
    have split : text.takeWhile (· != sep) ++ text.dropWhile (· != sep) = text :=
      List.takeWhile_append_dropWhile
    cases behind : text.dropWhile (· != sep) with
    | nil => simp [behind] at cut
    | cons b rest =>
      rw [behind] at cut split
      cases cut
      have isSep : b = sep := by
        have ends := List.head?_dropWhile_not (· != sep) text
        simpa [behind] using ends
      refine ⟨isSep ▸ split.symm, fun mem => ?_⟩
      simpa using List.mem_takeWhile_imp mem
  · rintro ⟨rfl, apart⟩
    have other : ∀ b ∈ left, (b != sep) = true := by
      intro b mem
      simpa using fun isSep : b = sep => apart (isSep ▸ mem)
    simp [List.takeWhile_append_of_pos other, List.dropWhile_append_of_pos other]

lemma cutFirst?_eq_none_iff {sep : UInt8} {text : Bytes} : cutFirst? sep text = none ↔ sep ∉ text := by
  rw [cutFirst?_eq]
  constructor
  · intro none mem
    cases behind : text.dropWhile (· != sep) with
    | nil => simpa using List.dropWhile_eq_nil_iff.1 behind sep mem
    | cons b rest => simp [behind] at none
  · intro apart
    have all : text.dropWhile (· != sep) = [] := by
      apply List.dropWhile_eq_nil_iff.2
      intro b mem
      simpa using fun isSep : b = sep => apart (isSep ▸ mem)
    rw [all]

/-- A text is cut in front of its last part without separators. -/
lemma cutLast?_eq_some_iff {sep : UInt8} {text left right : Bytes} :
    cutLast? sep text = some (left, right) ↔ text = left ++ sep :: right ∧ sep ∉ right := by
  rw [cutLast?, Option.map_eq_some_iff]
  constructor
  · rintro ⟨⟨back, front⟩, cut, same⟩
    cases same
    obtain ⟨reversed, apart⟩ := cutFirst?_eq_some_iff.1 cut
    exact ⟨by simpa using congrArg List.reverse reversed, by simpa using apart⟩
  · rintro ⟨rfl, apart⟩
    exact ⟨(right.reverse, left.reverse), cutFirst?_eq_some_iff.2 (by simpa using apart), by simp⟩

lemma cutLast?_eq_none_iff {sep : UInt8} {text : Bytes} : cutLast? sep text = none ↔ sep ∉ text := by
  rw [cutLast?, Option.map_eq_none_iff, cutFirst?_eq_none_iff, List.mem_reverse]

end Bytes

namespace Table

variable {α : Type}

lemma mem_keys_insert {table : Table α} {name key : Bytes} {value : α} :
    key ∈ (table.insert name value).keys ↔ key = name ∨ key ∈ table.keys := by
  rw [keys, keys, entries_insert]
  induction table.entries with
  | nil => simp [insertEntry]
  | cons entry rest ih =>
    rw [insertEntry]
    split
    · simp
    · split
      · rename_i same
        simp [same]
      · rw [List.map_cons, List.mem_cons, ih, List.map_cons, List.mem_cons]
        exact or_left_comm

lemma mem_keys_ofList {key : Bytes} {entries : List (Bytes × α)} :
    key ∈ (ofList entries).keys ↔ key ∈ entries.map (·.1) := by
  have filled (table : Table α) :
      key ∈ (entries.foldl (fun table entry => table.insert entry.1 entry.2) table).keys ↔
        key ∈ entries.map (·.1) ∨ key ∈ table.keys := by
    induction entries generalizing table with
    | nil => simp
    | cons entry entries ih =>
      rw [List.foldl_cons, ih, mem_keys_insert, List.map_cons, List.mem_cons]
      exact or_left_comm.trans or_assoc.symm
  exact (filled .empty).trans (by simp [keys])

end Table

namespace Completion

/-! ### The order of a list -/

/-- One candidate is listed before another: by the displayed name, then by length, then by its bytes. -/
def Precedes (isPath : Bool) (a b : Bytes) : Prop :=
  displayName isPath a < displayName isPath b ∨
    displayName isPath a = displayName isPath b ∧
      (a.length < b.length ∨ a.length = b.length ∧ a < b)

variable {isPath : Bool} {a b c : Bytes}

lemma precedes_irrefl : ¬Precedes isPath a a := by
  rintro (less | ⟨-, less | ⟨-, less⟩⟩)
  · exact List.lt_irrefl _ less
  · exact Nat.lt_irrefl _ less
  · exact List.lt_irrefl _ less

lemma Precedes.trans (first : Precedes isPath a b) (second : Precedes isPath b c) :
    Precedes isPath a c := by
  rcases first with less | ⟨same, less | ⟨length, less⟩⟩ <;>
    rcases second with less' | ⟨same', less' | ⟨length', less'⟩⟩
  · exact .inl (List.lt_trans less less')
  · exact .inl (same' ▸ less)
  · exact .inl (same' ▸ less)
  · exact .inl (same ▸ less')
  · exact .inr ⟨same.trans same', .inl (Nat.lt_trans less less')⟩
  · exact .inr ⟨same.trans same', .inl (length' ▸ less)⟩
  · exact .inl (same ▸ less')
  · exact .inr ⟨same.trans same', .inl (length ▸ less')⟩
  · exact .inr ⟨same.trans same', .inr ⟨length.trans length', List.lt_trans less less'⟩⟩

lemma precedes_trichotomy (isPath : Bool) (a b : Bytes) :
    Precedes isPath a b ∨ a = b ∨ Precedes isPath b a := by
  rcases Std.lt_trichotomy (displayName isPath a) (displayName isPath b) with less | same | less
  · exact .inl (.inl less)
  · rcases Nat.lt_trichotomy a.length b.length with shorter | length | longer
    · exact .inl (.inr ⟨same, .inl shorter⟩)
    · rcases Std.lt_trichotomy a b with less | same' | less
      · exact .inl (.inr ⟨same, .inr ⟨length, less⟩⟩)
      · exact .inr (.inl same')
      · exact .inr (.inr (.inr ⟨same.symm, .inr ⟨length.symm, less⟩⟩))
    · exact .inr (.inr (.inr ⟨same.symm, .inl longer⟩))
  · exact .inr (.inr (.inl less))

lemma listedBefore_iff : listedBefore isPath a b = true ↔ a = b ∨ Precedes isPath a b := by
  unfold listedBefore Precedes
  dsimp only
  by_cases same : displayName isPath a = displayName isPath b
  · rw [if_pos same]
    by_cases length : a.length = b.length
    · have notLess : ¬displayName isPath a < displayName isPath b := same ▸ List.lt_irrefl _
      rw [if_pos length, decide_eq_true_eq, Std.le_iff_lt_or_eq]
      simp [same, length, or_comm, List.lt_irrefl]
    · rw [if_neg length, decide_eq_true_eq]
      have other : a ≠ b := fun equal => length (congrArg List.length equal)
      simp [same, length, other, List.lt_irrefl]
  · rw [if_neg same, decide_eq_true_eq]
    have other : a ≠ b := fun equal => same (congrArg (displayName isPath) equal)
    simp [same, other]

/-! ### Canonical lists -/

lemma mem_dedupe {candidates : List Bytes} : a ∈ canonical.dedupe candidates ↔ a ∈ candidates := by
  fun_induction canonical.dedupe candidates with
  | case1 b rest ih => simp [ih]
  | case2 b next rest differ ih => rw [List.mem_cons, ih, ← List.mem_cons]
  | case3 short => rfl

/-- Listing adds no candidate and loses none. -/
lemma mem_canonical {candidates : List Bytes} : a ∈ canonical isPath candidates ↔ a ∈ candidates := by
  rw [canonical, mem_dedupe, List.mem_mergeSort]

/-- Without repetitions, a sorted list is strictly increasing. -/
lemma pairwise_dedupe {candidates : List Bytes}
    (sorted : candidates.Pairwise fun a b => a = b ∨ Precedes isPath a b) :
    (canonical.dedupe candidates).Pairwise (Precedes isPath) := by
  fun_induction canonical.dedupe candidates with
  | case1 b rest ih => exact ih sorted.of_cons
  | case2 b next rest differ ih =>
    obtain ⟨first, others⟩ := List.pairwise_cons.1 sorted
    refine List.pairwise_cons.2 ⟨fun c mem => ?_, ih others⟩
    have beforeNext := (first next List.mem_cons_self).resolve_left differ
    rcases List.mem_cons.1 (mem_dedupe.1 mem) with rfl | later
    · exact beforeNext
    · rcases (List.pairwise_cons.1 others).1 c later with rfl | less
      · exact beforeNext
      · exact beforeNext.trans less
  | case3 short single =>
    match short with
    | [] => exact .nil
    | [_] => exact List.pairwise_singleton _ _
    | b :: next :: rest => exact absurd rfl (single b next rest)

lemma listedBefore_trans (first : listedBefore isPath a b = true)
    (second : listedBefore isPath b c = true) : listedBefore isPath a c = true := by
  rw [listedBefore_iff] at first second ⊢
  rcases first with rfl | first
  · exact second
  · rcases second with rfl | second
    · exact .inr first
    · exact .inr (first.trans second)

lemma listedBefore_total (isPath : Bool) (a b : Bytes) :
    (listedBefore isPath a b || listedBefore isPath b a) = true := by
  rw [Bool.or_eq_true, listedBefore_iff, listedBefore_iff]
  rcases precedes_trichotomy isPath a b with less | same | less
  · exact .inl (.inr less)
  · exact .inl (.inl same)
  · exact .inr (.inr less)

theorem pairwise_canonical (isPath : Bool) (candidates : List Bytes) :
    (canonical isPath candidates).Pairwise (Precedes isPath) := by
  apply pairwise_dedupe
  have sorted : (candidates.mergeSort (listedBefore isPath)).Pairwise fun a b =>
      listedBefore isPath a b = true := by
    apply List.pairwise_mergeSort
    · intro a b c
      exact listedBefore_trans
    · intro a b
      exact listedBefore_total isPath a b
  exact sorted.imp listedBefore_iff.1

instance (isPath : Bool) : Std.Irrefl (Precedes isPath) := ⟨fun _ => precedes_irrefl⟩

instance (isPath : Bool) : Std.Antisymm (Precedes isPath) :=
  ⟨fun _ _ first second => absurd (first.trans second) precedes_irrefl⟩

/-- A strictly increasing list is determined by what it holds. -/
theorem canonical_eq_of_mem_iff {candidates others : List Bytes}
    (same : ∀ candidate, candidate ∈ candidates ↔ candidate ∈ others) :
    canonical isPath candidates = canonical isPath others := by
  apply List.Pairwise.eq_of_mem_iff (pairwise_canonical isPath candidates)
    (pairwise_canonical isPath others)
  intro candidate
  rw [mem_canonical, mem_canonical, same]

/-! ### Sources -/

/-- A file that a partly typed path may mean: an entry of the directory that the path leads to, hidden
only if a dot was typed, and with a slash behind it if it is a directory itself. -/
def CompletesPath (files : FileTree) (env : Environment) (typed candidate : Bytes) : Prop :=
  ∃ directory start place name node,
    typed = directory ++ start ∧ Ascii.code '/' ∉ start ∧
      (directory = [] ∨ directory.getLast? = some (Ascii.code '/')) ∧
    files.resolve? (if directory.isEmpty then bytes "." else expandHome env directory) = some place ∧
      files.get? place = some .directory ∧
    (name, node) ∈ files.children place ∧ start <+: name ∧ (isHidden name → isHidden start) ∧
      candidate = directory ++ name ++ if node = .directory then [Ascii.code '/'] else []

lemma splitDirectory_eq_iff {typed directory start : Bytes} :
    splitDirectory typed = (directory, start) ↔
      typed = directory ++ start ∧ Ascii.code '/' ∉ start ∧
        (directory = [] ∨ directory.getLast? = some (Ascii.code '/')) := by
  unfold splitDirectory
  cases cut : typed.cutLast? (Ascii.code '/') with
  | none =>
    have plain := Bytes.cutLast?_eq_none_iff.1 cut
    constructor
    · intro same
      cases same
      exact ⟨rfl, plain, .inl rfl⟩
    · rintro ⟨rfl, -, rfl | slash⟩
      · rfl
      · exact absurd (List.mem_append_left start (List.mem_of_getLast? slash)) plain
  | some parts =>
    obtain ⟨front, name⟩ := parts
    have split := Bytes.cutLast?_eq_some_iff.1 cut
    constructor
    · intro same
      cases same
      exact ⟨by simp [split.1], split.2, .inr (by simp)⟩
    · rintro ⟨whole, plain, rfl | slash⟩
      · rw [List.nil_append] at whole
        exact absurd (whole ▸ split.1 ▸ List.mem_append_right front List.mem_cons_self) plain
      · obtain ⟨parent, rfl⟩ := List.getLast?_eq_some_iff.1 slash
        have again : typed.cutLast? (Ascii.code '/') = some (parent, start) :=
          Bytes.cutLast?_eq_some_iff.2 ⟨by simp [whole], plain⟩
        rw [cut] at again
        cases again
        rfl

lemma mem_paths_iff {files : FileTree} {env : Environment} {typed candidate : Bytes} :
    candidate ∈ paths files env typed ↔ CompletesPath files env typed candidate := by
  unfold paths
  generalize split : splitDirectory typed = parts
  obtain ⟨directory, start⟩ := parts
  dsimp only
  constructor
  · intro mem
    generalize isTarget : (if directory.isEmpty then bytes "." else expandHome env directory) = target
      at mem
    split at mem
    · rename_i isDirectory
      obtain ⟨place, resolved, isPlace⟩ := Option.bind_eq_some_iff.1 (beq_iff_eq.1 isDirectory)
      rw [resolved, Option.getD_some, List.mem_mergeSort, List.mem_map] at mem
      obtain ⟨⟨name, node⟩, entry, rfl⟩ := mem
      obtain ⟨isEntry, fits⟩ := List.mem_filter.1 entry
      obtain ⟨whole, plain, slash⟩ := splitDirectory_eq_iff.1 split
      simp only [Bool.and_eq_true, List.isPrefixOf_iff_prefix, Bool.or_eq_true,
        Bool.not_eq_true'] at fits
      refine ⟨directory, start, place, name, node, whole, plain, slash,
        isTarget ▸ resolved, isPlace, isEntry, fits.1, fun hidden => ?_, rfl⟩
      exact fits.2.resolve_left fun shown => by simp [hidden] at shown
    · nomatch mem
  · rintro ⟨front, rest, place, name, node, whole, plain, slash, resolved, isPlace, isEntry, starts,
      hidden, rfl⟩
    rw [splitDirectory_eq_iff.2 ⟨whole, plain, slash⟩] at split
    cases split
    have isDirectory : files.isDirectory
        (if directory.isEmpty then bytes "." else expandHome env directory) = true :=
      beq_iff_eq.2 (Option.bind_eq_some_iff.2 ⟨place, resolved, isPlace⟩)
    rw [if_pos isDirectory, resolved, Option.getD_some, List.mem_mergeSort, List.mem_map]
    refine ⟨(name, node), List.mem_filter.2 ⟨isEntry, ?_⟩, rfl⟩
    by_cases isDotted : isHidden name = true
    · simp [starts, hidden isDotted]
    · simp [starts, isDotted]

end Completion

namespace Calc.Names

/-- A name that can be used by itself. -/
def IsGlobal (names : Names) (name : Bytes) : Prop :=
  name ∈ Token.keywords ∨ name ∈ names.builtins.keys ∨ name ∈ names.user.keys

/-- A name that can be used behind the name of a module. -/
def HasMember (names : Names) (head member : Bytes) : Prop :=
  ∃ symbol owner module, names.global? head = some symbol ∧ symbol.value = .module owner ∧
    names.module? owner = some module ∧ member ∈ module.members.keys

/-- A name, or the last part of a dotted one, that a text begins. -/
def Completes (names : Names) (text candidate : Bytes) : Prop :=
  (Ascii.code '.' ∉ text ∧ names.IsGlobal candidate ∧ text <+: candidate) ∨
    ∃ head tail member, text = head ++ Ascii.code '.' :: tail ∧ Ascii.code '.' ∉ tail ∧
      names.HasMember head member ∧ tail <+: member ∧ candidate = head ++ Ascii.code '.' :: member

lemma mem_all {names : Names} {name : Bytes} : name ∈ names.all ↔ names.IsGlobal name := by
  simp [all, IsGlobal, Table.mem_keys_ofList]

lemma candidates_describe (candidates : List Bytes) (symbol : Option Symbol) :
    (Symbol.describe candidates symbol).candidates = candidates := by
  cases symbol <;> rfl

lemma mem_candidates_lookup_dotted {names : Names} {text head tail candidate : Bytes}
    (cut : text.cutLast? (Ascii.code '.') = some (head, tail)) :
    candidate ∈ (names.lookup text).candidates ↔
      ∃ member, names.HasMember head member ∧ tail <+: member ∧
        candidate = head ++ Ascii.code '.' :: member := by
  rw [lookup, cut]
  dsimp only
  constructor
  · intro mem
    split at mem
    · rename_i symbol owner doc signature isHead
      split at mem
      · rename_i module isModule
        simp only [candidates_describe, List.mem_map, List.mem_filter,
          List.isPrefixOf_iff_prefix] at mem
        obtain ⟨member, ⟨isMember, starts⟩, rfl⟩ := mem
        exact ⟨member, ⟨_, owner, module, isHead, rfl, isModule, isMember⟩, starts, by simp⟩
      · nomatch mem
    · nomatch mem
  · rintro ⟨member, ⟨symbol, owner, module, isHead, isOwner, isModule, isMember⟩, starts, rfl⟩
    obtain ⟨value, doc, signature⟩ := symbol
    cases isOwner
    simp only [isHead, isModule, candidates_describe, List.mem_map, List.mem_filter,
      List.isPrefixOf_iff_prefix]
    exact ⟨member, ⟨isMember, starts⟩, by simp⟩

lemma mem_lookup_iff {names : Names} {text candidate : Bytes} :
    candidate ∈ (names.lookup text).candidates ↔ names.Completes text candidate := by
  cases cut : text.cutLast? (Ascii.code '.') with
  | none =>
    have plain := Bytes.cutLast?_eq_none_iff.1 cut
    rw [lookup, cut]
    simp only [candidates_describe, List.mem_filter, mem_all, List.isPrefixOf_iff_prefix]
    refine ⟨fun known => .inl ⟨plain, known⟩, ?_⟩
    rintro (⟨-, known⟩ | ⟨head, tail, member, rfl, -⟩)
    · exact known
    · simp at plain
  | some parts =>
    obtain ⟨head, tail⟩ := parts
    obtain ⟨whole, plain⟩ := Bytes.cutLast?_eq_some_iff.1 cut
    rw [mem_candidates_lookup_dotted cut]
    constructor
    · rintro ⟨member, isMember, starts, rfl⟩
      exact .inr ⟨head, tail, member, whole, plain, isMember, starts, rfl⟩
    · rintro (⟨none, -⟩ | ⟨front, rest, member, whole', plain', isMember, starts, rfl⟩)
      · simp [whole] at none
      · rw [Bytes.cutLast?_eq_some_iff.2 ⟨whole', plain'⟩] at cut
        cases cut
        exact ⟨member, isMember, starts, rfl⟩

end Calc.Names

namespace Completion

open Calc (Names)

/-- A module that was found already. -/
def IsModule (modules : Option ModuleIndex) (name : Bytes) : Prop :=
  ∃ index ∈ modules, name ∈ index.names.keys

/-- What the line may be completed to: a file inside of an open string literal, a module or a member of
a package on an import line, and a name everywhere else. -/
def Completes (names : Names) (modules : Option ModuleIndex) (files : FileTree) (env : Environment)
    (line : InputLine) (candidate : Bytes) : Prop :=
  match currentString? line with
  | some typed => CompletesPath files env typed candidate
  | none =>
    match if line.atEnd then importLine? line.before else none with
    | some (.module word) => IsModule modules candidate ∧ word <+: candidate
    | some (.member package word) =>
      IsModule modules (package ++ Ascii.code '.' :: candidate) ∧ Ascii.code '.' ∉ candidate ∧
        word <+: candidate
    | none => ∃ word, line.currentWord? = some word ∧ names.Completes word candidate

/-- The calculator's names, and the modules and files around it. -/
def calculatorSources (names : Names) (modules : Option ModuleIndex) (files : FileTree)
    (env : Environment) : Sources :=
  { symbols := fun text => some (names.lookup text), modules, files, env }

variable {names : Names} {modules : Option ModuleIndex} {files : FileTree} {env : Environment}
  {line : InputLine} {candidate : Bytes}

lemma mem_complete_iff {index : ModuleIndex} {start : Bytes} :
    candidate ∈ index.complete start ↔ candidate ∈ index.names.keys ∧ start <+: candidate := by
  rw [ModuleIndex.complete, List.mem_filter, List.isPrefixOf_iff_prefix]

lemma mem_importCandidates_module {sources : Sources} {word : Bytes} (typed : word ≠ []) :
    candidate ∈ (Engine.importCandidates sources (.module word)).2 ↔
      IsModule sources.modules candidate ∧ word <+: candidate := by
  have some : word.isEmpty = false := List.isEmpty_eq_false_iff.2 typed
  unfold Engine.importCandidates IsModule
  cases sources.modules <;> simp [some, mem_complete_iff]

lemma mem_importCandidates_member {sources : Sources} {package word : Bytes} (typed : word ≠ []) :
    candidate ∈ (Engine.importCandidates sources (.member package word)).2 ↔
      IsModule sources.modules (package ++ Ascii.code '.' :: candidate) ∧
        Ascii.code '.' ∉ candidate ∧ word <+: candidate := by
  have some : word.isEmpty = false := List.isEmpty_eq_false_iff.2 typed
  unfold Engine.importCandidates IsModule
  cases sources.modules with
  | none => simp [some]
  | some index =>
    simp only [some, Bool.false_eq_true, if_false, List.mem_filter, List.mem_map, mem_complete_iff,
      Bool.not_eq_true', List.contains_eq_mem, decide_eq_false_iff_not, Option.mem_some_iff,
      exists_eq_left']
    constructor
    · rintro ⟨⟨name, ⟨known, rest, rfl⟩, rfl⟩, plain⟩
      rw [List.append_assoc, List.drop_left] at plain ⊢
      exact ⟨by simpa using known, plain, List.prefix_append _ _⟩
    · rintro ⟨known, plain, rest, rfl⟩
      have dotted : package ++ Ascii.code '.' :: (word ++ rest) =
          (package ++ [Ascii.code '.']) ++ (word ++ rest) := by simp
      exact ⟨⟨_, ⟨known, rest, by simp⟩, by rw [dotted, List.drop_left]⟩, plain⟩

/-- The sources offer what the line may be completed to, and nothing else. -/
lemma mem_offered_iff (typed : (offered (calculatorSources names modules files env) line).1 ≠ []) :
    candidate ∈ (offered (calculatorSources names modules files env) line).2 ↔
      Completes names modules files env line candidate := by
  unfold offered at typed ⊢
  unfold Completes
  cases isString : currentString? line with
  | some path => exact mem_paths_iff
  | none =>
    simp only [isString] at typed ⊢
    cases isImport : (if line.atEnd then importLine? line.before else none) with
    | some importLine =>
      simp only [isImport, importCandidates_fst] at typed ⊢
      cases importLine with
      | module word => exact mem_importCandidates_module typed
      | member package word => exact mem_importCandidates_member typed
    | none =>
      simp only [isImport] at typed ⊢
      cases isWord : line.currentWord? with
      | some word =>
        simp only [Option.some.injEq, exists_eq_left']
        exact Names.mem_lookup_iff
      | none => simp [isWord] at typed

lemma Names.prefix_of_completes {text : Bytes} (completes : names.Completes text candidate) :
    text <+: candidate := by
  rcases completes with ⟨-, -, starts⟩ | ⟨head, tail, member, rfl, -, -, ⟨rest, rfl⟩, rfl⟩
  · exact starts
  · exact ⟨rest, by simp⟩

lemma prefix_of_completesPath {typed : Bytes} (completes : CompletesPath files env typed candidate) :
    typed <+: candidate := by
  obtain ⟨directory, start, place, name, node, rfl, -, -, -, -, -, ⟨rest, rfl⟩, -, rfl⟩ := completes
  exact ⟨rest ++ if node = .directory then [Ascii.code '/'] else [], by simp⟩

/-- Whatever the source, a completion goes on with the word. -/
lemma prefix_of_completes (completes : Completes names modules files env line candidate) :
    (offered (calculatorSources names modules files env) line).1 <+: candidate := by
  unfold Completes at completes
  unfold offered
  cases isString : currentString? line with
  | some path =>
    rw [isString] at completes
    exact prefix_of_completesPath completes
  | none =>
    simp only [isString] at completes ⊢
    cases isImport : (if line.atEnd then importLine? line.before else none) with
    | some importLine =>
      simp only [isImport, importCandidates_fst] at completes ⊢
      cases importLine with
      | module word => exact completes.2
      | member package word => exact completes.2.2
    | none =>
      simp only [isImport] at completes ⊢
      obtain ⟨word, isWord, known⟩ := completes
      rw [isWord]
      exact Names.prefix_of_completes known

namespace Engine

/-- Only in an open string literal the candidates are paths. -/
lemma isPath_refresh (engine : Engine) (sources : Sources) (line : InputLine) :
    (engine.refresh sources line).set.isPath = (currentString? line).isSome := by
  unfold refresh adopt matchesFor
  generalize engine.hint? sources line.before = asked
  obtain ⟨hint, other⟩ := asked
  cases currentString? line with
  | some path => rfl
  | none =>
    dsimp only
    cases if line.atEnd then importLine? line.before else none with
    | some importLine => rfl
    | none =>
      dsimp only
      cases line.currentWord? <;> rfl

/-- A refresh that finds a word lists what the word may be completed to, in the order of the displayed
names and each of them once, whatever was listed before and however the source repeats or orders
it. -/
theorem refresh_lists_completions (engine : Engine) (names : Names) (modules : Option ModuleIndex)
    (files : FileTree) (env : Environment) (line : InputLine) :
    let sources := calculatorSources names modules files env
    let set := (engine.refresh sources line).set
    set.word ≠ [] →
      line.after = [] ∧ set.word <:+ line.text ∧
      (∀ candidate ∈ set.candidates, set.word <+: candidate) ∧
      set.candidates.Pairwise (Precedes set.isPath) ∧ set.candidates.Nodup ∧
      (∀ candidate, candidate ∈ set.candidates ↔ Completes names modules files env line candidate) ∧
      ∀ (other : Engine) (reordered : Sources),
        (∀ candidate, candidate ∈ (offered reordered line).2 ↔ candidate ∈ (offered sources line).2) →
          (other.refresh reordered line).set.candidates = set.candidates := by
  intro sources set typed
  obtain ⟨atEnd, -, base, before, -⟩ := endsIn_word_refresh typed
  have sorted : set.candidates.Pairwise (Precedes set.isPath) := by
    rw [show set.candidates = _ from candidates_refresh engine sources line]
    exact pairwise_canonical _ _
  have listed (candidate : Bytes) :
      candidate ∈ set.candidates ↔ Completes names modules files env line candidate := by
    rw [show set.candidates = _ from candidates_refresh engine sources line, mem_canonical]
    exact mem_offered_iff (word_refresh engine sources line ▸ typed)
  refine ⟨atEnd, ⟨base, ?_⟩, fun candidate mem => ?_, sorted, ?_, listed, fun other reordered same => ?_⟩
  · rw [InputLine.text, atEnd, List.append_nil, before]
  · rw [show set.word = _ from word_refresh engine sources line]
    exact prefix_of_completes ((listed candidate).1 mem)
  · apply sorted.imp
    rintro candidate _ precedes rfl
    exact precedes_irrefl precedes
  · rw [candidates_refresh, isPath_refresh, show set.candidates = _ from
      candidates_refresh engine sources line, isPath_refresh]
    exact canonical_eq_of_mem_iff same

/-- Behind `from` and a package, its own members are listed, and not the members of packages inside of it.
In an open string literal the files are listed that the path leads to: from the root, up from the working
directory, or from the user's home directory. -/
theorem lists_members_and_files :
    let index : ModuleIndex :=
      { suffixes := [], budget := 1, roots := []
        names := .ofList (["net.http", "net.host", "net.html.parser"].map fun name => (bytes name, ())) }
    let files : FileTree :=
      { nodes := [([bytes "home"], .directory), ([bytes "home", bytes "user"], .directory),
          ([bytes "home", bytes "user", bytes "notes"], .file []), ([bytes "work"], .directory)]
        working := [bytes "work"] }
    let env : Environment := .ofList [(bytes "HOME", bytes "/home/user")]
    let listed (text : String) : List Bytes :=
      (Engine.refresh {} (calculatorSources .initial (some index) files env)
        { before := bytes text }).set.candidates
    bytes "http" ∈ listed "from net import h" ∧ bytes "html.parser" ∉ listed "from net import h" ∧
      bytes "/home/user/" ∈ listed "f('/home/u" ∧ bytes "../home/" ∈ listed "f('../" ∧
      bytes "~/notes" ∈ listed "f('~/n" := by
  intro index files env listed
  have lists (text : String)
      (typed : (Engine.refresh {} (calculatorSources .initial (some index) files env)
        { before := bytes text }).set.word ≠ []) (candidate : Bytes) :
      candidate ∈ listed text ↔
        Completes .initial (some index) files env { before := bytes text } candidate :=
    (refresh_lists_completions {} .initial (some index) files env { before := bytes text }
      typed).2.2.2.2.2.1 candidate
  have word (text : String) : (Engine.refresh {} (calculatorSources .initial (some index) files env)
      { before := bytes text }).set.word = _ := word_refresh _ _ _
  have isImport : (if (InputLine.atEnd { before := bytes "from net import h" })
      then importLine? (bytes "from net import h") else none) =
        some (.member (bytes "net") (bytes "h")) := by decide +kernel
  have noString : currentString? { before := bytes "from net import h" } = none := by decide +kernel
  have fromRoot : currentString? { before := bytes "f('/home/u" } = some (bytes "/home/u") := by decide +kernel
  have upwards : currentString? { before := bytes "f('../" } = some (bytes "../") := by decide +kernel
  have fromHome : currentString? { before := bytes "f('~/n" } = some (bytes "~/n") := by decide +kernel
  rw [lists _ (by rw [word]; decide +kernel), lists _ (by rw [word]; decide +kernel),
    lists _ (by rw [word]; decide +kernel), lists _ (by rw [word]; decide +kernel),
    lists _ (by rw [word]; decide +kernel)]
  simp only [Completes, noString, isImport, fromRoot, upwards, fromHome]
  refine ⟨⟨⟨index, rfl, by decide +kernel⟩, by decide +kernel, by decide +kernel⟩, ?_, ?_, ?_, ?_⟩
  · rintro ⟨-, plain, -⟩
    exact plain (by decide +kernel)
  · exact ⟨bytes "/home/", bytes "u", [bytes "home"], bytes "user", .directory, by decide +kernel⟩
  · exact ⟨bytes "../", [], [], bytes "home", .directory, by decide +kernel⟩
  · exact ⟨bytes "~/", bytes "n", [bytes "home", bytes "user"], bytes "notes", .file [], by decide +kernel⟩

end Engine
end Completion
end CalcShell
