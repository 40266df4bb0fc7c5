import CalcShell.Completion.Signature
import CalcShell.Proofs.Text.Lines
import CalcShell.Proofs.Text.Styled

/-! The argument hint of a signature reads as the signature does, and in bold are the names that the cursor is at. -/
namespace CalcShell.Signature

variable {spec : Signature} {piece : StyledLine} {pieces : List StyledLine} {place : Nat} {param : Bytes}

/-! ### What a signature says -/

/-- The defaults belong to the last arguments. -/
def defaultAt (spec : Signature) (place : Nat) : Option Bytes :=
  let n := min spec.defaults.length spec.args.length
  if place + n < spec.args.length then none else spec.defaults[place + n - spec.args.length]?

def withDefault (param : Bytes) : Option Bytes → Bytes
  | some value => param ++ bytes "=" ++ value
  | none => param

def shownArgs (spec : Signature) : List Bytes :=
  spec.args.mapIdx fun place arg => withDefault arg (spec.defaultAt place)

/-- Keyword-only parameters stand behind a star, be it that of the variable arguments. -/
def starred (spec : Signature) : List Bytes :=
  if spec.varargs ≠ [] then [bytes "*" ++ spec.varargs] else if spec.kwonly ≠ [] then [bytes "*"] else []

def shownKwonly (spec : Signature) : List Bytes :=
  spec.kwonly.map fun param => withDefault param (spec.kwonlyDefaults.lookup param)

def doubleStarred (spec : Signature) : List Bytes :=
  if spec.varkw ≠ [] then [bytes "**" ++ spec.varkw] else []

def parameters (spec : Signature) : List Bytes :=
  spec.shownArgs ++ spec.starred ++ spec.shownKwonly ++ spec.doubleStarred

/-- The place of the active argument, for which the receiver of a bound method does not count. -/
def IsAt (spec : Signature) (place : Nat) : Prop :=
  ∃ index, spec.activeIndex = some index ∧ (place : Int) = index + if spec.isBound then 1 else 0

/-- The piece begins with the name of a parameter, and nothing behind it is bold. -/
def Marks (piece : StyledLine) (param : Bytes) (isActive : Prop) : Prop :=
  ∃ name others, piece = name :: others ∧ name.text = param ∧ (name.bold = true ↔ isActive) ∧
    ∀ run ∈ others, run.bold = false

/-! ### Text -/

lemma plain_commaIf (condition : Bool) :
    StyledLine.plain (commaIf condition) = if condition then bytes ", " else [] := by
  cases condition <;> rfl

lemma plain_defaultRuns (param : Bytes) (value : Option Bytes) :
    param ++ StyledLine.plain (defaultRuns value) = withDefault param value := by
  cases value with
  | none => exact List.append_nil param
  | some value => simp [defaultRuns, withDefault, punctuation, token]

lemma close_concat (front : List StyledLine) (piece : StyledLine) :
    close (front ++ [piece]) = front ++ [piece ++ [punctuation ")"]] := by
  induction front with
  | nil => rfl
  | cons first front ih =>
    rw [List.cons_append, List.cons_append, ← ih]
    cases front <;> rfl

lemma plain_close (some : pieces ≠ []) :
    StyledLine.plain (close pieces).flatten = StyledLine.plain pieces.flatten ++ bytes ")" := by
  obtain rfl | ⟨front, piece, rfl⟩ := List.eq_nil_or_concat pieces
  · exact absurd rfl some
  · simp [close_concat, punctuation]

lemma getElem?_alignedDefaults (isArg : place < spec.args.length) :
    spec.alignedDefaults[place]? = some (spec.defaultAt place) := by
  have bounded := Nat.min_le_right spec.defaults.length spec.args.length
  have available := Nat.min_le_left spec.defaults.length spec.args.length
  simp only [alignedDefaults, defaultAt, List.getElem?_append, List.length_replicate, List.getElem?_replicate]
  generalize min spec.defaults.length spec.args.length = n at bounded available ⊢
  by_cases early : place + n < spec.args.length
  · rw [if_pos (by omega), if_pos (by omega), if_pos early]
  · have inside : place + n - spec.args.length < spec.defaults.length := by omega
    rw [if_neg (by omega), if_neg early, List.getElem?_map,
      show place - (spec.args.length - n) = place + n - spec.args.length by omega,
      List.getElem?_take_of_lt (by omega), List.getElem?_eq_getElem inside, Option.map_some]

lemma argPieces_eq (spec : Signature) :
    spec.argPieces = spec.args.mapIdx fun place arg => spec.argPiece place arg (spec.defaultAt place) := by
  refine List.ext_getElem? fun place => ?_
  rw [argPieces, List.getElem?_mapIdx, List.getElem?_mapIdx, List.zip, List.getElem?_zipWith]
  by_cases isArg : place < spec.args.length
  · rw [getElem?_alignedDefaults isArg, List.getElem?_eq_getElem isArg]
    rfl
  · rw [List.getElem?_eq_none (Nat.not_lt.1 isArg)]
    rfl

/-- Each text but the last one has the separator behind it. -/
lemma flatten_mapIdx_separated {α : Type} (sep : Bytes) (xs : List α) (text : Nat → α → Bytes) :
    (xs.mapIdx fun place x => text place x ++ if place + 1 = xs.length then [] else sep).flatten =
      sep.intercalate (xs.mapIdx text) := by
  induction xs generalizing text with
  | nil => rfl
  | cons first rest ih =>
    have behind := ih fun place => text (place + 1)
    rw [List.mapIdx_cons, List.flatten_cons, List.mapIdx_cons]
    simp only [List.length_cons, Nat.add_right_cancel_iff]
    rw [behind]
    cases rest with
    | nil => simp
    | cons second rest =>
      rw [if_neg (by simp), List.intercalate_cons_of_ne_nil (by simp)]

lemma plain_argPiece (spec : Signature) (place : Nat) (arg : Bytes) (value : Option Bytes) :
    StyledLine.plain (spec.argPiece place arg value) =
      withDefault arg value ++ if place + 1 = spec.args.length then [] else bytes ", " := by
  simp [argPiece, plain_commaIf, ← plain_defaultRuns]

lemma plain_argPieces (spec : Signature) : StyledLine.plain spec.argPieces.flatten =
    (bytes ", ").intercalate spec.shownArgs := by
  rw [shownArgs, ← flatten_mapIdx_separated, StyledLine.plain_flatten, argPieces_eq, List.flatMap]
  refine congrArg _ (List.ext_getElem? fun place => ?_)
  simp only [List.getElem?_map, List.getElem?_mapIdx, Option.map_map, Function.comp_def, plain_argPiece]

lemma plain_starred (spec : Signature) : StyledLine.plain (spec.varargsPieces ++ spec.starPieces).flatten =
    spec.starred.flatMap ((if spec.args ≠ [] then bytes ", " else []) ++ ·) := by
  unfold varargsPieces starPieces starred
  by_cases varargs : spec.varargs = [] <;> by_cases kwonly : spec.kwonly = [] <;>
    simp [varargs, kwonly, plain_commaIf, token, punctuation]

lemma plain_kwonlyPieces (spec : Signature) : StyledLine.plain spec.kwonlyPieces.flatten =
    spec.shownKwonly.flatMap (bytes ", " ++ ·) := by
  rw [StyledLine.plain_flatten, kwonlyPieces, shownKwonly, List.flatMap_map, List.flatMap_map]
  refine List.flatMap_congr fun param _ => ?_
  rw [← plain_defaultRuns]
  rfl

lemma plain_varkwPieces (spec : Signature) : StyledLine.plain spec.varkwPieces.flatten =
    spec.doubleStarred.flatMap
      ((if spec.args ≠ [] ∨ spec.varargs ≠ [] ∨ spec.kwonly ≠ [] then bytes ", " else []) ++ ·) := by
  unfold varkwPieces doubleStarred
  by_cases varkw : spec.varkw = []
  · simp [varkw]
  · simp [varkw, plain_commaIf, token, or_assoc]

/-- A text alone needs no separator. -/
lemma intercalate_append_of_length_le_one {back : List Bytes} (alone : back.length ≤ 1) (sep : Bytes)
    (front : List Bytes) : sep.intercalate (front ++ back) =
      sep.intercalate front ++ back.flatMap ((if front ≠ [] then sep else []) ++ ·) := by
  by_cases none : front = []
  · obtain _ | ⟨text, _ | _⟩ := back
    · simp
    · simp [none]
    · simp at alone
  · rw [Bytes.intercalate_append none, if_pos none]

lemma starred_eq_nil_iff : spec.starred = [] ↔ spec.varargs = [] ∧ spec.kwonly = [] := by
  by_cases varargs : spec.varargs = [] <;> by_cases kwonly : spec.kwonly = [] <;> simp [starred, varargs, kwonly]

lemma length_starred_le (spec : Signature) : spec.starred.length ≤ 1 := by
  unfold starred
  split_ifs <;> simp

lemma length_doubleStarred_le (spec : Signature) : spec.doubleStarred.length ≤ 1 := by
  unfold doubleStarred
  split_ifs <;> simp

lemma plain_pieces (spec : Signature) : StyledLine.plain spec.pieces.flatten =
    spec.name ++ bytes ": (" ++ (bytes ", ").intercalate spec.parameters ++ bytes ")" := by
  have noArgs : spec.shownArgs = [] ↔ spec.args = [] := List.mapIdx_eq_nil_iff
  have noKwonly : spec.shownKwonly = [] ↔ spec.kwonly = [] := List.map_eq_nil_iff
  have behindStar : (bytes ", ").intercalate (spec.shownArgs ++ spec.starred ++ spec.shownKwonly) =
      (bytes ", ").intercalate (spec.shownArgs ++ spec.starred) ++ spec.shownKwonly.flatMap (bytes ", " ++ ·) := by
    by_cases none : spec.kwonly = []
    · rw [noKwonly.2 none, List.append_nil, List.flatMap_nil, List.append_nil]
    · have some : spec.starred ≠ [] := fun empty => none (starred_eq_nil_iff.1 empty).2
      exact Bytes.intercalate_append (List.append_ne_nil_of_right_ne_nil _ some) _ _
  have before : spec.shownArgs ++ spec.starred ++ spec.shownKwonly ≠ [] ↔
      spec.args ≠ [] ∨ spec.varargs ≠ [] ∨ spec.kwonly ≠ [] := by
    simp only [ne_eq, List.append_eq_nil_iff, noArgs, noKwonly, starred_eq_nil_iff]
    tauto
  rw [parameters, intercalate_append_of_length_le_one spec.length_doubleStarred_le, behindStar,
    intercalate_append_of_length_le_one spec.length_starred_le, pieces, plain_close (by simp)]
  simp only [before, ne_eq, noArgs, ← plain_argPieces, ← plain_starred, ← plain_kwonlyPieces, ← plain_varkwPieces]
  simp [headPiece]

/-! ### Bold names -/

lemma Marks.append {more : StyledLine} {isActive : Prop} (marks : Marks piece param isActive)
    (plain : ∀ run ∈ more, run.bold = false) : Marks (piece ++ more) param isActive := by
  obtain ⟨name, others, rfl, text, bold, rest⟩ := marks
  exact ⟨name, others ++ more, rfl, text, bold, List.forall_mem_append.2 ⟨rest, plain⟩⟩

lemma getElem?_close (found : pieces[place]? = some piece) :
    ∃ more, (close pieces)[place]? = some (piece ++ more) ∧ ∀ run ∈ more, run.bold = false := by
  obtain ⟨inside, rfl⟩ := List.getElem?_eq_some_iff.1 found
  obtain rfl | ⟨front, last, rfl⟩ := List.eq_nil_or_concat' pieces
  · exact absurd inside (Nat.not_lt_zero place)
  · rw [close_concat]
    by_cases early : place < front.length
    · refine ⟨[], ?_, nofun⟩
      rw [List.getElem?_append_left early, List.getElem_append_left early, List.append_nil,
        List.getElem?_eq_getElem early]
    · obtain rfl : place = front.length := by
        rw [List.length_append, List.length_singleton] at inside
        omega
      exact ⟨[punctuation ")"], by simp, by simp [punctuation]⟩

lemma not_bold_defaultRuns (value : Option Bytes) : ∀ run ∈ defaultRuns value, run.bold = false := by
  cases value <;> simp [defaultRuns, punctuation, token]

lemma not_bold_commaIf (condition : Bool) : ∀ run ∈ commaIf condition, run.bold = false := by
  cases condition <;> simp [commaIf, comma]

lemma isAt_iff : spec.IsAt place ↔ spec.activePlace = some (place : Int) := by
  unfold IsAt activePlace
  cases spec.activeIndex <;> cases spec.isBound <;> simp [eq_comm]

lemma marks_argPiece (some : param ≠ []) (place : Nat) (value : Option Bytes) :
    Marks (spec.argPiece place param value) param (spec.IsAt place ∨ param = spec.activeKeyword) := by
  refine ⟨_, _, rfl, rfl, ?_, List.forall_mem_append.2 ⟨not_bold_defaultRuns value, not_bold_commaIf _⟩⟩
  have isNamed : spec.activeKeyword ≠ [] ∧ param = spec.activeKeyword ↔ param = spec.activeKeyword :=
    and_iff_right_of_imp fun same => same ▸ some
  simp [isAt_iff, isNamed]

lemma getElem?_argPieces {arg : Bytes} (isArg : spec.args[place]? = some arg) :
    spec.argPieces[place]? = some (spec.argPiece place arg (spec.defaultAt place)) := by
  rw [argPieces_eq, List.getElem?_mapIdx, isArg, Option.map_some]

lemma length_before_kwonly (some : spec.kwonly ≠ []) :
    (spec.headPiece :: spec.argPieces ++ spec.varargsPieces ++ spec.starPieces).length = spec.args.length + 2 := by
  by_cases varargs : spec.varargs = [] <;> simp [argPieces_eq, varargsPieces, starPieces, varargs, some]

lemma marks_arg {arg : Bytes} (isArg : spec.args[place]? = some arg) (some : arg ≠ []) :
    ∃ piece, spec.pieces[place + 1]? = .some piece ∧
      Marks piece arg (spec.IsAt place ∨ arg = spec.activeKeyword) := by
  have found : (spec.headPiece :: spec.argPieces ++ spec.varargsPieces ++ spec.starPieces ++
      spec.kwonlyPieces ++ spec.varkwPieces)[place + 1]? = .some (spec.argPiece place arg (spec.defaultAt place)) := by
    have piece := getElem?_argPieces isArg
    simp only [List.append_assoc, List.cons_append, List.getElem?_cons_succ]
    rw [List.getElem?_append_left (List.getElem?_eq_some_iff.1 piece).1, piece]
  obtain ⟨more, closed, plain⟩ := getElem?_close found
  exact ⟨_, closed, (marks_argPiece some place _).append plain⟩

lemma marks_kwonly (isKwonly : spec.kwonly[place]? = some param) :
    ∃ piece, spec.pieces[spec.args.length + 2 + place]? = some (comma :: piece) ∧
      Marks piece param (param = spec.activeKeyword) := by
  have found : (spec.headPiece :: spec.argPieces ++ spec.varargsPieces ++ spec.starPieces ++
      spec.kwonlyPieces ++ spec.varkwPieces)[spec.args.length + 2 + place]? =
        some ([comma, token param (param == spec.activeKeyword)] ++
          defaultRuns (spec.kwonlyDefaults.lookup param)) := by
    have piece : spec.kwonlyPieces[place]? = some ([comma, token param (param == spec.activeKeyword)] ++
        defaultRuns (spec.kwonlyDefaults.lookup param)) := by
      rw [kwonlyPieces, List.getElem?_map, isKwonly, Option.map_some]
    rw [← length_before_kwonly (List.ne_nil_of_mem (List.mem_of_getElem? isKwonly)), List.append_assoc,
      List.getElem?_append_right (Nat.le_add_right _ _), Nat.add_sub_cancel_left,
      List.getElem?_append_left (List.getElem?_eq_some_iff.1 piece).1, piece]
  obtain ⟨more, closed, plain⟩ := getElem?_close found
  exact ⟨_, closed, _, _, rfl, rfl, by simp [token], List.forall_mem_append.2 ⟨not_bold_defaultRuns _, plain⟩⟩

/-- The hint reads as the signature does, whichever of its sections are empty. Every argument and every keyword-only
parameter has a piece of its own. -/
theorem pieces_are_signature (named : ∀ arg ∈ spec.args, arg ≠ []) :
    StyledLine.plain spec.pieces.flatten =
        spec.name ++ bytes ": (" ++ (bytes ", ").intercalate spec.parameters ++ bytes ")" ∧
      (∀ place arg, spec.args[place]? = some arg →
        ∃ piece, spec.pieces[place + 1]? = some piece ∧
          Marks piece arg (spec.IsAt place ∨ arg = spec.activeKeyword)) ∧
      ∀ place param, spec.kwonly[place]? = some param →
        ∃ piece, spec.pieces[spec.args.length + 2 + place]? = some (comma :: piece) ∧
          Marks piece param (param = spec.activeKeyword) :=
  ⟨plain_pieces spec, fun _ arg isArg => marks_arg isArg (named arg (List.mem_of_getElem? isArg)),
    fun _ _ => marks_kwonly⟩

theorem pieces_of_bound_method :
    let spec : Signature :=
      { name := bytes "sort", args := [bytes "self", bytes "by", bytes "down"], defaults := [bytes "False"]
        kwonly := [bytes "key"], kwonlyDefaults := [(bytes "key", bytes "None")], varkw := bytes "rest"
        isBound := true, activeIndex := some 0, activeKeyword := bytes "key" }
    (∀ arg ∈ spec.args, arg ≠ []) ∧
      StyledLine.plain spec.pieces.flatten = bytes "sort: (self, by, down=False, *, key=None, **rest)" ∧
      (∃ piece, spec.pieces[2]? = some piece ∧
        Marks piece (bytes "by") (spec.IsAt 1 ∨ bytes "by" = spec.activeKeyword)) ∧
      ∃ piece, spec.pieces[5]? = some (comma :: piece) ∧ Marks piece (bytes "key") (bytes "key" = spec.activeKeyword) := by
  intro spec
  have named : ∀ arg ∈ spec.args, arg ≠ [] := by decide +kernel
  obtain ⟨text, args, kwonly⟩ := pieces_are_signature named
  exact ⟨named, text.trans (by decide +kernel), args 1 _ rfl, kwonly 0 _ rfl⟩

end CalcShell.Signature
