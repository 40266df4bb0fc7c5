import CalcShell.Proofs.Screen.Page
import CalcShell.Session.Basic
import Mathlib.Data.List.Basic

/-! The input lines of a transcript with their numbers. Adding lines, rewinding and clearing keep those
whose numbers stay within the transcript. -/
namespace CalcShell

lemma filter_zipIdx_le {α : Type} (as : List α) (n k : Nat) :
    (as.zipIdx n).filter (n + k ≤ ·.2) = (as.drop k).zipIdx (n + k) := by
  induction as generalizing n k with
  | nil => simp
  | cons a as ih =>
    cases k with
    | zero =>
      refine List.filter_eq_self.2 fun entry mem => ?_
      simpa using List.le_snd_of_mem_zipIdx mem
    | succ k =>
      rw [List.zipIdx_cons, List.filter_cons_of_neg (by simp), List.drop_succ_cons,
        ← Nat.succ_add_eq_add_succ]
      exact ih (n + 1) k

lemma filter_zipIdx_lt {α : Type} (as : List α) (n k : Nat) :
    (as.zipIdx n).filter (·.2 < n + k) = (as.take k).zipIdx n := by
  induction as generalizing n k with
  | nil => simp
  | cons a as ih =>
    cases k with
    | zero =>
      rw [List.take_zero, List.zipIdx_nil]
      refine List.filter_eq_nil_iff.2 fun entry mem => ?_
      simpa using List.le_snd_of_mem_zipIdx mem
    | succ k =>
      rw [List.zipIdx_cons, List.filter_cons_of_pos (by simp), List.take_succ_cons,
        List.zipIdx_cons, ← Nat.succ_add_eq_add_succ]
      exact congrArg _ (ih (n + 1) k)

/-- The lines from a number on, of lines that are cut at a later number. -/
lemma filter_filter_le {lines : List Evaluated} {a b : Nat} (le : a ≤ b) :
    (lines.filter (a ≤ ·.mark)).filter (b ≤ ·.mark) = lines.filter (b ≤ ·.mark) := by
  rw [List.filter_filter]
  refine List.filter_congr fun line _ => ?_
  simp only [Bool.and_eq_left_iff_imp, decide_eq_true_eq]
  exact Nat.le_trans le

/-- Dropping the lines from the last one on, or all lines below `first` if that is later, drops none of
the others. -/
lemma filter_rewound {front : List Evaluated} {last : Evaluated}
    (before : ∀ early ∈ front, early.mark < last.mark) (first : Nat) :
    ((front ++ [last]).filter (first ≤ ·.mark)).filter (·.mark < max last.mark first) =
      front.filter (first ≤ ·.mark) := by
  have gone : ([last].filter (first ≤ ·.mark)).filter (·.mark < max last.mark first) = [] := by
    rw [List.filter_filter]
    refine List.filter_eq_nil_iff.2 fun line mem => ?_
    rw [List.mem_singleton.1 mem, Bool.and_eq_true, decide_eq_true_eq, decide_eq_true_eq]
    omega
  rw [List.filter_append, List.filter_append, gone, List.append_nil]
  refine List.filter_eq_self.2 fun early mem => ?_
  have := before early (List.mem_of_mem_filter mem)
  rw [decide_eq_true_eq]
  omega

/-- An input line that shows a text behind its prompt. -/
structure TranscriptLine.IsInput (line : TranscriptLine) (text : Bytes) : Prop where
  source : line.source = some text
  plain : ∃ prompt : Bytes, line.styled.plain = prompt ++ text ∧ line.promptWidth = prompt.length

/-- An input line with output below it. -/
def IsEntry (text : Bytes) : List TranscriptLine → Prop
  | [] => False
  | line :: lines => line.IsInput text ∧ ∀ output ∈ lines, output.source = none

namespace Transcript

/-- An input line with its number. -/
def input? (entry : TranscriptLine × Nat) : Option Evaluated :=
  entry.1.source.map ({ text := ·, mark := entry.2 })

lemma filter_filterMap_input? (p : Nat → Bool) (entries : List (TranscriptLine × Nat)) :
    (entries.filterMap input?).filter (p ·.mark) = (entries.filter (p ·.2)).filterMap input? := by
  induction entries with
  | nil => rfl
  | cons entry entries ih =>
    rw [List.filterMap_cons, List.filter_cons]
    unfold input? at ih ⊢
    cases source : entry.1.source <;> cases keeps : p entry.2 <;> simp [source, keeps, ih]

/-- The input lines that are kept, oldest first. -/
def inputs (t : Transcript) : List Evaluated := (t.lines.toList.zipIdx t.first).filterMap input?

lemma mem_zipIdx_iff {t : Transcript} {line : TranscriptLine} {number : Nat} :
    (line, number) ∈ t.lines.toList.zipIdx t.first ↔ t.line? number = some line := by
  rw [List.mk_mem_zipIdx_iff_le_and_getElem?_sub, line?, Array.getElem?_toList]
  split
  · simp; omega
  · simp; omega

lemma mem_inputs {t : Transcript} {e : Evaluated} : e ∈ t.inputs ↔
    ∃ line, t.line? e.mark = some line ∧ line.source = some e.text := by
  obtain ⟨text, mark⟩ := e
  rw [inputs, List.mem_filterMap]
  constructor
  · rintro ⟨⟨line, number⟩, mem, isInput⟩
    rw [input?, Option.map_eq_some_iff] at isInput
    obtain ⟨source, isSource, same⟩ := isInput
    cases same
    exact ⟨line, mem_zipIdx_iff.1 mem, isSource⟩
  · rintro ⟨line, there, source⟩
    exact ⟨(line, mark), mem_zipIdx_iff.2 there, by simp [input?, source]⟩

lemma mem_range_of_mem_inputs {t : Transcript} {e : Evaluated} (mem : e ∈ t.inputs) :
    t.first ≤ e.mark ∧ e.mark < t.mark := by
  obtain ⟨line, there, -⟩ := mem_inputs.1 mem
  rw [line?] at there
  split at there
  · cases there
  · have := (Array.getElem?_eq_some_iff.1 there).1
    unfold Transcript.mark
    omega

lemma filter_first_le_inputs (t : Transcript) : t.inputs.filter (t.first ≤ ·.mark) = t.inputs :=
  List.filter_eq_self.2 fun _ mem => decide_eq_true (mem_range_of_mem_inputs mem).1

lemma filter_mark_le_inputs (t : Transcript) : t.inputs.filter (t.mark ≤ ·.mark) = [] := by
  refine List.filter_eq_nil_iff.2 fun e mem => ?_
  have := (mem_range_of_mem_inputs mem).2
  simpa using this

/-! ### Adding lines -/

/-- A new line drops as many old ones as are too many. -/
lemma push_eq (t : Transcript) (line : TranscriptLine) :
    (t.push line).first = t.first + (t.lines.size + 1 - limit) ∧
      (t.push line).lines.toList = (t.lines.toList ++ [line]).drop (t.lines.size + 1 - limit) := by
  unfold push
  dsimp only
  rw [Array.size_push]
  split
  · rename_i room
    rw [Nat.sub_eq_zero_of_le room, List.drop_zero]
    exact ⟨rfl, Array.toList_push⟩
  · refine ⟨rfl, ?_⟩
    rw [Array.toList_extract, List.extract_eq_take_drop, Array.toList_push,
      List.take_of_length_le]
    simp

/-- A new line may drop old ones. -/
lemma exists_push_eq (t : Transcript) (line : TranscriptLine) : ∃ k ≤ t.lines.size + 1,
    (t.push line).first = t.first + k ∧
      (t.push line).lines.toList = (t.lines.toList ++ [line]).drop k :=
  ⟨t.lines.size + 1 - limit, Nat.sub_le _ _, push_eq t line⟩

lemma size_eq_length (t : Transcript) : t.lines.size = t.lines.toList.length :=
  Array.length_toList.symm

lemma mark_push (t : Transcript) (line : TranscriptLine) : (t.push line).mark = t.mark + 1 := by
  obtain ⟨k, le, first, lines⟩ := exists_push_eq t line
  unfold mark
  rw [first, size_eq_length, lines, List.length_drop, List.length_append, ← size_eq_length,
    List.length_singleton]
  omega

lemma mark_pushAll (t : Transcript) (lines : List TranscriptLine) :
    (t.pushAll lines).mark = t.mark + lines.length := by
  induction lines generalizing t with
  | nil => rfl
  | cons line lines ih =>
    change ((t.push line).pushAll lines).mark = _
    rw [ih, mark_push, List.length_cons]
    omega

/-- New lines drop as many old ones as are too many. -/
lemma pushAll_eq (t : Transcript) {lines : List TranscriptLine} (some : lines ≠ []) :
    (t.pushAll lines).first = t.first + (t.lines.size + lines.length - limit) ∧
      (t.pushAll lines).lines.toList =
        (t.lines.toList ++ lines).drop (t.lines.size + lines.length - limit) := by
  induction lines generalizing t with
  | nil => exact absurd rfl some
  | cons line lines ih =>
    obtain ⟨first, kept⟩ := t.push_eq line
    rw [show t.pushAll (line :: lines) = (t.push line).pushAll lines from rfl]
    cases lines with
    | nil => exact ⟨first, kept⟩
    | cons next lines =>
      obtain ⟨later, all⟩ := ih (t.push line) (List.cons_ne_nil _ _)
      have size : (t.push line).lines.size = t.lines.size + 1 - (t.lines.size + 1 - limit) := by
        rw [size_eq_length, kept, List.length_drop, List.length_append, ← size_eq_length, List.length_singleton]
      have dropped : t.lines.size + 1 - limit + ((t.push line).lines.size + (next :: lines).length - limit) =
          t.lines.size + (line :: next :: lines).length - limit := by
        rw [size, List.length_cons, List.length_cons, List.length_cons]
        omega
      refine ⟨by rw [later, first, Nat.add_assoc, dropped], ?_⟩
      have within : t.lines.size + 1 - limit ≤ (t.lines.toList ++ [line]).length := by
        rw [List.length_append, ← size_eq_length, List.length_singleton]
        omega
      rw [all, kept, ← List.drop_append_of_le_length within, List.drop_drop, dropped, List.append_assoc]
      rfl

lemma inputs_push (t : Transcript) (line : TranscriptLine) : (t.push line).inputs =
    (t.inputs ++ (input? (line, t.mark)).toList).filter ((t.push line).first ≤ ·.mark) := by
  obtain ⟨k, -, first, lines⟩ := exists_push_eq t line
  have whole : t.inputs ++ (input? (line, t.mark)).toList =
      ((t.lines.toList ++ [line]).zipIdx t.first).filterMap input? := by
    rw [List.zipIdx_append, List.filterMap_append, Array.length_toList, inputs]
    congr 1
  rw [whole, filter_filterMap_input? fun number => decide ((t.push line).first ≤ number), inputs, lines,
    first, filter_zipIdx_le]

/-- Output leaves the input lines, but for those that had to go. -/
lemma inputs_pushAll_output (t : Transcript) {lines : List TranscriptLine}
    (output : ∀ line ∈ lines, line.source = none) : (t.pushAll lines).inputs =
      t.inputs.filter ((t.pushAll lines).first ≤ ·.mark) := by
  induction lines generalizing t with
  | nil => exact (filter_first_le_inputs t).symm
  | cons line lines ih =>
    have none : (input? (line, t.mark)).toList = [] := by
      rw [input?, output line List.mem_cons_self]
      rfl
    change ((t.push line).pushAll lines).inputs = _
    rw [ih (t.push line) fun line mem => output line (List.mem_cons_of_mem _ mem), inputs_push, none,
      List.append_nil, filter_filter_le (first_le_pushAll _ _)]
    rfl

theorem inputs_pushAll (t : Transcript) {lines : List TranscriptLine} {text : Bytes}
    (entry : IsEntry text lines) : (t.pushAll lines).inputs =
      (t.inputs ++ [Evaluated.mk text t.mark]).filter ((t.pushAll lines).first ≤ ·.mark) := by
  cases lines with
  | nil => exact entry.elim
  | cons line lines =>
    have input : (input? (line, t.mark)).toList = [Evaluated.mk text t.mark] := by
      rw [input?, entry.1.source]
      rfl
    change ((t.push line).pushAll lines).inputs = _
    rw [inputs_pushAll_output _ entry.2, inputs_push, input,
      filter_filter_le (first_le_pushAll _ _)]
    rfl

/-! ### Dropping lines -/

lemma toList_rewind (t : Transcript) (mark : Nat) :
    (t.rewind mark).lines.toList = t.lines.toList.take (mark - t.first) := by
  unfold rewind
  rw [Array.toList_extract, List.extract_eq_take_drop, List.drop_zero, Nat.sub_zero]

lemma inputs_rewind (t : Transcript) {mark : Nat} (le : t.first ≤ mark) :
    (t.rewind mark).inputs = t.inputs.filter (·.mark < mark) := by
  obtain ⟨k, rfl⟩ := Nat.exists_eq_add_of_le le
  unfold inputs rewind
  rw [filter_filterMap_input? fun number => decide (number < t.first + k), filter_zipIdx_lt]
  simp

lemma mark_rewind {t : Transcript} {mark : Nat} (le : t.first ≤ mark) (le' : mark ≤ t.mark) :
    (t.rewind mark).mark = mark := by
  unfold Transcript.mark at le' ⊢
  rw [first_rewind, rewind, Array.size_extract]
  omega

/-- Rewinding to the end of a transcript takes back all lines that were added to it, but brings back none that
had to go for them. -/
lemma rewind_pushAll (t : Transcript) {lines : List TranscriptLine} (some : lines ≠ [])
    (fits : lines.length ≤ limit) :
    (t.pushAll lines).first ≤ t.mark ∧ ((t.pushAll lines).rewind t.mark).mark = t.mark ∧
      ((t.pushAll lines).rewind t.mark).lines.toList =
        t.lines.toList.drop (t.lines.size + lines.length - limit) := by
  obtain ⟨first, kept⟩ := t.pushAll_eq some
  have below : (t.pushAll lines).first ≤ t.mark := by
    rw [first, mark]
    omega
  refine ⟨below, mark_rewind below (by rw [mark_pushAll]; omega), ?_⟩
  have left : t.mark - (t.pushAll lines).first =
      (t.lines.toList.drop (t.lines.size + lines.length - limit)).length := by
    rw [first, mark, List.length_drop, ← size_eq_length]
    omega
  have within : t.lines.size + lines.length - limit ≤ t.lines.toList.length := by
    rw [← size_eq_length]
    omega
  rw [toList_rewind, kept, left, List.drop_append_of_le_length within, List.take_left]

/-! ### Readable lines -/

/-- Every input line shows its text. -/
def IsReadable (t : Transcript) : Prop :=
  ∀ line ∈ t.lines.toList, ∀ text, line.source = some text → line.IsInput text

lemma IsReadable.push {t : Transcript} (h : t.IsReadable) {line : TranscriptLine}
    (new : ∀ text, line.source = some text → line.IsInput text) : (t.push line).IsReadable := by
  obtain ⟨k, -, -, lines⟩ := exists_push_eq t line
  intro l mem
  rw [lines] at mem
  rcases List.mem_append.1 (List.mem_of_mem_drop mem) with old | isNew
  · exact h l old
  · rw [List.mem_singleton.1 isNew]
    exact new

lemma IsReadable.pushAll {t : Transcript} (h : t.IsReadable) {lines : List TranscriptLine}
    (new : ∀ line ∈ lines, ∀ text, line.source = some text → line.IsInput text) :
    (t.pushAll lines).IsReadable := by
  induction lines generalizing t with
  | nil => exact h
  | cons line lines ih =>
    exact ih (h.push (new line List.mem_cons_self)) fun l mem => new l (List.mem_cons_of_mem _ mem)

lemma IsReadable.pushAll_of_isEntry {t : Transcript} (h : t.IsReadable)
    {lines : List TranscriptLine} {text : Bytes} (entry : IsEntry text lines) :
    (t.pushAll lines).IsReadable := by
  refine h.pushAll fun line mem text' source => ?_
  cases lines with
  | nil => cases mem
  | cons first rest =>
    rcases List.mem_cons.1 mem with rfl | mem
    · obtain rfl : text' = text := Option.some.inj (source.symm.trans entry.1.source)
      exact entry.1
    · rw [entry.2 line mem] at source
      cases source

lemma IsReadable.rewind {t : Transcript} (h : t.IsReadable) (mark : Nat) :
    (t.rewind mark).IsReadable := by
  intro line mem
  rw [toList_rewind] at mem
  exact h line (List.mem_of_mem_take mem)

lemma isReadable_clear (t : Transcript) : t.clear.IsReadable := fun _ mem => by cases mem

end Transcript

namespace Page

variable {p : Page}

/-- The page after a line was submitted with its output, by what came of it. -/
def take (p : Page) (lines : List TranscriptLine) (goesOn : Bool) : Outcome → Page
  | .exit => p.add lines
  | .interrupted => ((p.add lines).rewind p.transcript.mark).turn goesOn
  | outcome => (p.add lines).turn outcome.asksMore

lemma take_of_taken {outcome : Outcome} (calm : outcome ≠ .interrupted) (stays : outcome ≠ .exit)
    (p : Page) (lines : List TranscriptLine) (goesOn : Bool) :
    p.take lines goesOn outcome = (p.add lines).turn outcome.asksMore := by
  unfold take
  split
  · contradiction
  · contradiction
  · rfl

/-- The input lines of the statement being entered. -/
def statement (p : Page) : List Evaluated := p.transcript.inputs.filter (p.start ≤ ·.mark)

lemma statement_turn_false (p : Page) : (p.turn false).statement = [] :=
  Transcript.filter_mark_le_inputs p.transcript

lemma statement_add (start : p.start ≤ p.transcript.mark) {lines : List TranscriptLine}
    {text : Bytes} (entry : IsEntry text lines) :
    (p.add lines).statement = (p.statement ++ [Evaluated.mk text p.transcript.mark]).filter
      ((p.add lines).transcript.first ≤ ·.mark) := by
  have new : [Evaluated.mk text p.transcript.mark].filter (p.start ≤ ·.mark) =
      [Evaluated.mk text p.transcript.mark] := List.filter_cons_of_pos (by simpa using start)
  unfold statement add
  dsimp only
  rw [Transcript.inputs_pushAll p.transcript entry, List.filter_comm, List.filter_append, new]

/-- Rewinding never goes back beyond the oldest line, and never forward. -/
lemma mark_rewind (p : Page) (mark : Nat) : (p.rewind mark).transcript.mark =
    min p.transcript.mark (max mark p.transcript.first) := by
  have first : p.transcript.first ≤ p.transcript.mark := Nat.le_add_right _ _
  unfold rewind
  dsimp only
  split
  · rename_i reached
    exact (Nat.min_eq_left reached).symm
  · rename_i inside
    rw [Transcript.mark_rewind (Nat.le_max_right _ _) (Nat.le_of_not_le inside)]
    exact (Nat.min_eq_right (Nat.le_of_not_le inside)).symm

lemma start_rewind (start : p.start ≤ p.transcript.mark) (mark : Nat) :
    (p.rewind mark).start = min p.start (max mark p.transcript.first) := by
  unfold rewind
  dsimp only
  split
  · rename_i reached
    exact (Nat.min_eq_left (Nat.le_trans start reached)).symm
  · rfl

lemma statement_rewind (start : p.start ≤ p.transcript.mark) (mark : Nat) :
    (p.rewind mark).statement =
      p.statement.filter (·.mark < max mark p.transcript.first) := by
  unfold statement
  rw [start_rewind start, transcript_rewind_eq, Transcript.inputs_rewind _ (Nat.le_max_right _ _),
    List.filter_filter, List.filter_filter]
  refine List.filter_congr fun e _ => ?_
  rw [Bool.eq_iff_iff]
  simp only [Bool.and_eq_true, decide_eq_true_eq]
  omega

end Page
end CalcShell
