import CalcShell.Bytes
import Mathlib.Data.List.Basic
import Mathlib.Data.List.Induction
import Mathlib.Data.List.TakeWhile

/-! Every text is some lines, each with its newline, and an open line behind them. Texts written one
after the other have the lines of each of them just as long as none leaves a line open. -/
namespace CalcShell.Bytes

lemma isBlank_of_subset {part text : Bytes} (inside : part ⊆ text) (blank : text.isBlank) : part.isBlank :=
  List.all_eq_true.2 fun b mem => List.all_eq_true.1 blank b (inside mem)

/-- White space and then the first byte that is none. -/
lemma exists_of_not_isBlank {text : Bytes} (marked : ¬isBlank text) : ∃ gap b rest,
    text = gap ++ b :: rest ∧ isBlank gap ∧ Ascii.isSpace b = false := by
  have some : text.dropWhile Ascii.isSpace ≠ [] := by
    rw [Ne, List.dropWhile_eq_nil_iff]
    exact fun all => marked (List.all_eq_true.2 all)
  refine ⟨text.takeWhile Ascii.isSpace, (text.dropWhile Ascii.isSpace).head some,
    (text.dropWhile Ascii.isSpace).tail, ?_, List.all_takeWhile, List.head_dropWhile_not _ some⟩
  rw [List.cons_head_tail, List.takeWhile_append_dropWhile]

/-! ### Pieces between separators -/

lemma splitOn_ne_nil (sep : UInt8) (text : Bytes) : splitOn sep text ≠ [] := by
  cases text with
  | nil => exact List.cons_ne_nil _ _
  | cons b rest =>
    rw [splitOn]
    split
    · exact List.cons_ne_nil _ _
    · split <;> exact List.cons_ne_nil _ _

/-- A separator ends one piece and begins the next one. -/
lemma splitOn_append_sep (sep : UInt8) (front back : Bytes) :
    splitOn sep (front ++ sep :: back) = splitOn sep front ++ splitOn sep back := by
  induction front with
  | nil => simp [splitOn]
  | cons b rest ih =>
    rw [List.cons_append, splitOn, splitOn, ih]
    split
    · rfl
    · cases pieces : splitOn sep rest with
      | nil => exact absurd pieces (splitOn_ne_nil sep rest)
      | cons piece others => rfl

lemma splitOn_of_notMem {sep : UInt8} {text : Bytes} (none : sep ∉ text) :
    splitOn sep text = [text] := by
  induction text with
  | nil => rfl
  | cons b rest ih =>
    rw [List.mem_cons, not_or] at none
    rw [splitOn, if_neg (Ne.symm none.1), ih none.2]

lemma intercalate_cons (sep first : Bytes) (rest : List Bytes) :
    sep.intercalate (first :: rest) = first ++ rest.flatMap (sep ++ ·) := by
  induction rest generalizing first with
  | nil => rw [List.intercalate_singleton, List.flatMap_nil, List.append_nil]
  | cons second rest ih =>
    rw [List.intercalate_cons_cons, ih, List.flatMap_cons, List.append_assoc, List.append_assoc]

lemma intercalate_append {front : List Bytes} (some : front ≠ []) (sep : Bytes) (back : List Bytes) :
    sep.intercalate (front ++ back) = sep.intercalate front ++ back.flatMap (sep ++ ·) := by
  obtain ⟨first, rest, rfl⟩ := List.exists_cons_of_ne_nil some
  rw [List.cons_append, intercalate_cons, intercalate_cons, List.flatMap_append, List.append_assoc]

/-! ### Complete lines and an open one -/

@[simp] lemma unlines_nil : unlines [] = [] := rfl

lemma unlines_cons (line : Bytes) (rest : List Bytes) :
    unlines (line :: rest) = line ++ Ascii.newline :: unlines rest := by
  rw [unlines, List.flatMap_cons, List.append_assoc, List.singleton_append, unlines]

lemma unlines_append (front back : List Bytes) :
    unlines (front ++ back) = unlines front ++ unlines back := List.flatMap_append

@[simp] lemma lines_nil : lines [] = [] := rfl

/-- The parts of a text: its complete lines, and the line that is open behind them. -/
structure IsSplit (text : Bytes) (complete : List Bytes) (rest : Bytes) : Prop where
  whole : text = unlines complete ++ rest
  complete : ∀ line ∈ complete, Ascii.newline ∉ line
  rest : Ascii.newline ∉ rest

lemma exists_isSplit (text : Bytes) : ∃ complete rest, IsSplit text complete rest := by
  induction text with
  | nil => exact ⟨[], [], rfl, nofun, nofun⟩
  | cons b behind ih =>
    obtain ⟨complete, rest, rfl, plain, none⟩ := ih
    by_cases newline : b = Ascii.newline
    · refine ⟨[] :: complete, rest, ?_, List.forall_mem_cons.2 ⟨nofun, plain⟩, none⟩
      rw [newline, unlines_cons]
      rfl
    · have other : Ascii.newline ≠ b := Ne.symm newline
      cases complete with
      | nil => exact ⟨[], b :: rest, rfl, nofun, by simp [other, none]⟩
      | cons line lines =>
        obtain ⟨first, others⟩ := List.forall_mem_cons.1 plain
        refine ⟨(b :: line) :: lines, rest, ?_, List.forall_mem_cons.2 ⟨?_, others⟩, none⟩
        · rw [unlines_cons, unlines_cons]
          rfl
        · simp [other, first]

variable {text front back rest : Bytes} {complete : List Bytes}

lemma IsSplit.splitOn_eq (parts : IsSplit text complete rest) :
    splitOn Ascii.newline text = complete ++ [rest] := by
  obtain ⟨rfl, plain, none⟩ := parts
  induction complete with
  | nil => exact splitOn_of_notMem none
  | cons line lines ih =>
    obtain ⟨first, others⟩ := List.forall_mem_cons.1 plain
    rw [unlines_cons, List.append_assoc, List.cons_append, splitOn_append_sep, splitOn_of_notMem first,
      ih others]
    rfl

/-- What follows completes the open line and goes on behind it. -/
lemma IsSplit.append {more : List Bytes} {last : Bytes} (parts : IsSplit text complete rest)
    (behind : IsSplit (rest ++ back) more last) :
    IsSplit (text ++ back) (complete ++ more) last := by
  refine ⟨?_, List.forall_mem_append.2 ⟨parts.complete, behind.complete⟩, behind.rest⟩
  rw [parts.whole, List.append_assoc, behind.whole, unlines_append, List.append_assoc]

/-- What follows the last newline is a line of its own unless it is empty. -/
lemma IsSplit.lines_eq (parts : IsSplit text complete rest) :
    lines text = if rest = [] then complete else complete ++ [rest] := by
  rw [lines, parts.splitOn_eq, List.reverse_append, List.reverse_singleton, List.singleton_append]
  cases rest with
  | nil => exact List.reverse_reverse complete
  | cons b rest => simp

/-- No line is left open at the end. -/
def IsWhole (text : Bytes) : Prop := ∀ b ∈ text.getLast?, b = Ascii.newline

instance (text : Bytes) : Decidable (IsWhole text) :=
  inferInstanceAs (Decidable (∀ b ∈ text.getLast?, b = Ascii.newline))

lemma IsSplit.isWhole_iff (parts : IsSplit text complete rest) : IsWhole text ↔ rest = [] := by
  obtain ⟨rfl, -, none⟩ := parts
  cases rest using List.reverseRecOn with
  | nil =>
    refine iff_of_true ?_ rfl
    rw [List.append_nil]
    cases complete using List.reverseRecOn with
    | nil => nofun
    | append_singleton lines line => simp [IsWhole, unlines_append, unlines_cons]
  | append_singleton rest b =>
    have other : b ≠ Ascii.newline := fun newline => none (by simp [newline])
    simp [IsWhole, other]

/-- The lines of a text that leaves no line open stand before those of what follows. -/
lemma lines_append_of_isWhole (whole : IsWhole front) (back : Bytes) :
    lines (front ++ back) = lines front ++ lines back := by
  obtain ⟨complete, rest, parts⟩ := exists_isSplit front
  obtain ⟨complete', rest', parts'⟩ := exists_isSplit back
  obtain rfl : rest = [] := parts.isWhole_iff.1 whole
  have both : IsSplit (front ++ back) (complete ++ complete') rest' := by
    refine ⟨?_, List.forall_mem_append.2 ⟨parts.complete, parts'.complete⟩, parts'.rest⟩
    rw [parts.whole, parts'.whole, unlines_append, List.append_nil, List.append_assoc]
  rw [both.lines_eq, parts.lines_eq, parts'.lines_eq, if_pos rfl]
  split
  · rfl
  · exact List.append_assoc _ _ _

/-- An open line and the first one of what follows become one. -/
lemma length_lines_append (isOpen : ¬IsWhole front) (some : back ≠ []) :
    (lines (front ++ back)).length + 1 = (lines front).length + (lines back).length := by
  obtain ⟨complete, rest, parts⟩ := exists_isSplit front
  obtain ⟨complete', rest', parts'⟩ := exists_isSplit back
  have someRest : rest ≠ [] := mt parts.isWhole_iff.2 isOpen
  cases complete' with
  | nil =>
    have someRest' : rest' ≠ [] := by
      rintro rfl
      exact some parts'.whole
    have both : IsSplit (front ++ back) complete (rest ++ rest') := by
      refine ⟨?_, parts.complete, fun mem => ?_⟩
      · rw [parts.whole, parts'.whole, unlines_nil, List.nil_append, List.append_assoc]
      · exact (List.mem_append.1 mem).elim parts.rest parts'.rest
    rw [both.lines_eq, parts.lines_eq, parts'.lines_eq, if_neg someRest, if_neg someRest',
      if_neg (List.append_ne_nil_of_left_ne_nil someRest _)]
    simp
  | cons line lines =>
    obtain ⟨first, others⟩ := List.forall_mem_cons.1 parts'.complete
    have both : IsSplit (front ++ back) (complete ++ (rest ++ line) :: lines) rest' := by
      refine ⟨?_, List.forall_mem_append.2 ⟨parts.complete, List.forall_mem_cons.2 ⟨?_, others⟩⟩,
        parts'.rest⟩
      · rw [parts.whole, parts'.whole, unlines_append, unlines_cons, unlines_cons]
        simp
      · exact fun mem => (List.mem_append.1 mem).elim parts.rest first
    rw [both.lines_eq, parts.lines_eq, parts'.lines_eq, if_neg someRest]
    split <;> simp <;> omega

/-- Text is written only where a line begins: whatever has text behind it leaves no line open. -/
def AtLineStarts : List Bytes → Prop
  | [] => True
  | piece :: behind => (IsWhole piece ∨ behind.flatten = []) ∧ AtLineStarts behind

instance decidableAtLineStarts : (pieces : List Bytes) → Decidable (AtLineStarts pieces)
  | [] => inferInstanceAs (Decidable True)
  | _ :: behind =>
    have := decidableAtLineStarts behind
    inferInstanceAs (Decidable (_ ∧ _))

lemma lines_flatten {pieces : List Bytes} (starts : AtLineStarts pieces) :
    lines pieces.flatten = pieces.flatMap lines := by
  induction pieces with
  | nil => rfl
  | cons piece behind ih =>
    obtain ⟨whole | none, starts⟩ := starts
    · rw [List.flatten_cons, List.flatMap_cons, lines_append_of_isWhole whole, ih starts]
    · rw [List.flatten_cons, List.flatMap_cons, ← ih starts, none, List.append_nil]
      exact (List.append_nil _).symm

lemma length_lines_append_le (front back : Bytes) :
    (lines (front ++ back)).length ≤ (lines front).length + (lines back).length := by
  by_cases whole : IsWhole front
  · exact Nat.le_of_eq (by rw [lines_append_of_isWhole whole, List.length_append])
  · by_cases none : back = []
    · rw [none, List.append_nil]
      exact Nat.le_add_right _ _
    · have joined := length_lines_append whole none
      omega

lemma length_lines_flatten_le (pieces : List Bytes) :
    (lines pieces.flatten).length ≤ (pieces.flatMap lines).length := by
  induction pieces with
  | nil => exact Nat.le_refl _
  | cons piece behind ih =>
    have both := length_lines_append_le piece behind.flatten
    rw [List.flatten_cons, List.flatMap_cons, List.length_append]
    omega

/-- Pieces that go on with an open line have more lines one by one than together. -/
theorem length_lines_flatten_eq_iff (pieces : List Bytes) :
    (lines pieces.flatten).length = (pieces.flatMap lines).length ↔ AtLineStarts pieces := by
  refine ⟨fun same => ?_, fun starts => by rw [lines_flatten starts]⟩
  induction pieces with
  | nil => trivial
  | cons piece behind ih =>
    have both := length_lines_append_le piece behind.flatten
    have fewer := length_lines_flatten_le behind
    rw [List.flatten_cons, List.flatMap_cons, List.length_append] at same
    refine ⟨?_, ih (by omega)⟩
    by_contra goesOn
    rw [not_or] at goesOn
    have joined := length_lines_append goesOn.1 goesOn.2
    omega

end CalcShell.Bytes
