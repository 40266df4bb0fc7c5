import CalcShell.Proofs.Calc.Statements
import CalcShell.Proofs.Session.Submission
import Mathlib.Data.List.Basic
import Mathlib.Data.List.Induction

/-! Feeding lines anew. An interrupt cuts off one line of a replay, which goes on with the next one;
the evaluator ends as if only the other lines had been fed, and by a user who never interrupts. -/
namespace CalcShell.Session.Replay
open CalcShell.Calc (Calculator)

section

variable {ε : Type} [Evaluator ε] (env : Environment) (r : Replay ε) (line : Bytes)

/-- What comes of the next line. -/
def submission : Submission ε := Evaluator.submit r.evaluator env r.patience line

@[simp] lemma evaluator_feed : (r.feed env line).evaluator = (r.submission env line).next := by
  unfold feed submission
  dsimp only
  split <;> rfl

@[simp] lemma patience_feed : (r.feed env line).patience = (r.submission env line).patience := by
  unfold feed submission
  dsimp only
  split <;> rfl

lemma buffer_feed : (r.feed env line).buffer =
    if (r.submission env line).outcome.asksMore then r.buffer ++ [line] else [] := by
  unfold feed submission
  generalize Evaluator.submit r.evaluator env r.patience line = sub
  rcases sub with ⟨⟨_ | _, _⟩ | _ | _ | _, _, _, _⟩ <;> rfl

/-- The lines that were not interrupted. -/
def survivors (env : Environment) : Replay ε → List Bytes → List Bytes
  | _, [] => []
  | r, line :: lines =>
    if (r.submission env line).outcome = .interrupted then survivors env (r.feed env line) lines
    else line :: survivors env (r.feed env line) lines

/-- No line is interrupted. -/
def IsQuiet (env : Environment) : Replay ε → List Bytes → Prop
  | _, [] => True
  | r, line :: lines =>
    (r.submission env line).outcome ≠ .interrupted ∧ IsQuiet env (r.feed env line) lines

instance decidableIsQuiet (env : Environment) :
    (r : Replay ε) → (lines : List Bytes) → Decidable (IsQuiet env r lines)
  | _, [] => inferInstanceAs (Decidable True)
  | r, line :: lines =>
    have := decidableIsQuiet env (r.feed env line) lines
    inferInstanceAs (Decidable (_ ∧ _))

/-- The last line is interrupted. -/
def IsCutAtEnd (env : Environment) (r : Replay ε) (lines : List Bytes) : Prop :=
  ∃ front last, lines = front ++ [last] ∧
    ((front.foldl (feed env) r).submission env last).outcome = .interrupted

lemma isCutAtEnd_concat (lines : List Bytes) : IsCutAtEnd env r (lines ++ [line]) ↔
    ((lines.foldl (feed env) r).submission env line).outcome = .interrupted := by
  constructor
  · rintro ⟨front, last, same, cut⟩
    obtain ⟨rfl, rfl⟩ := List.append_singleton_inj.1 same
    exact cut
  · intro cut
    exact ⟨lines, line, rfl, cut⟩

instance decidableIsCutAtEnd (lines : List Bytes) : Decidable (IsCutAtEnd env r lines) :=
  decidable_of_iff (∃ last ∈ lines.getLast?,
      ((lines.dropLast.foldl (feed env) r).submission env last).outcome = .interrupted) <| by
    constructor
    · rintro ⟨last, member, cut⟩
      exact ⟨lines.dropLast, last, (List.dropLast_append_getLast? last member).symm, cut⟩
    · rintro ⟨front, last, rfl, cut⟩
      exact ⟨last, by simp, by simpa using cut⟩

/-- A replay by a user who never interrupts. -/
def undisturbed (env : Environment) (evaluator : ε) (lines : List Bytes) : Replay ε :=
  lines.foldl (feed env) (start evaluator {})

lemma undisturbed_concat (evaluator : ε) (lines : List Bytes) :
    undisturbed env evaluator (lines ++ [line]) =
      (undisturbed env evaluator lines).feed env line :=
  List.foldl_concat _ _ _ _

/-- The lines of a replay that leave a statement unfinished came last. -/
lemma buffer_suffix {r : Replay ε} (start : r.buffer = []) (lines : List Bytes) :
    (lines.foldl (feed env) r).buffer <:+ lines := by
  induction lines using List.reverseRecOn with
  | nil => exact List.suffix_nil.2 start
  | append_singleton lines line ih =>
    rw [List.foldl_concat, buffer_feed]
    split
    · obtain ⟨front, split⟩ := ih
      exact ⟨front, by rw [← List.append_assoc, split]⟩
    · exact List.nil_suffix

/-- The buffer holds the lines that came last, and before them no statement was unfinished. -/
lemma lines_before_buffer (evaluator : ε) (lines : List Bytes) :
    ∃ front, lines = front ++ (undisturbed env evaluator lines).buffer ∧
      (undisturbed env evaluator front).buffer = [] := by
  induction lines using List.reverseRecOn with
  | nil => exact ⟨[], rfl, rfl⟩
  | append_singleton lines line ih =>
    obtain ⟨front, split, before⟩ := ih
    rw [undisturbed_concat, buffer_feed]
    by_cases more :
        ((undisturbed env evaluator lines).submission env line).outcome.asksMore = true
    · refine ⟨front, ?_, before⟩
      rw [if_pos more, ← List.append_assoc, ← split]
    · refine ⟨lines ++ [line], ?_, ?_⟩
      · rw [if_neg more, List.append_nil]
      · rw [undisturbed_concat, buffer_feed, if_neg more]

end

/-! ### With the calculator -/

/-- Replays that agree on everything that the lines decide. -/
structure Same (r r' : Replay Calculator) : Prop where
  evaluator : r.evaluator.Alike r'.evaluator
  buffer : r.buffer = r'.buffer

variable {env : Environment} {r r' : Replay Calculator} {line : Bytes}

lemma Same.symm (h : Same r r') : Same r' r := ⟨h.evaluator.symm, h.buffer.symm⟩

lemma Same.trans {r'' : Replay Calculator} (h : Same r r') (h' : Same r' r'') : Same r r'' :=
  ⟨h.evaluator.trans h'.evaluator, h.buffer.trans h'.buffer⟩

lemma Same.feed (h : Same r r') (line : Bytes) (formed : r.evaluator.WellFormed)
    (calm : (r.submission env line).outcome ≠ .interrupted)
    (calm' : (r'.submission env line).outcome ≠ .interrupted) :
    Same (r.feed env line) (r'.feed env line) := by
  obtain ⟨outcome, -, next⟩ := h.evaluator.submit env r.patience r'.patience line formed calm calm'
  change (r.submission env line).outcome = (r'.submission env line).outcome at outcome
  constructor
  · rw [evaluator_feed, evaluator_feed]
    exact next
  · rw [buffer_feed, buffer_feed, outcome, h.buffer]

lemma wellFormed_feed (formed : r.evaluator.WellFormed) :
    (r.feed env line).evaluator.WellFormed := by
  rw [evaluator_feed]
  exact Calculator.wellFormed_next env r.patience line formed

lemma reset_feed (formed : r.evaluator.WellFormed) :
    (r.feed env line).evaluator.reset.Alike r.evaluator.reset := by
  rw [evaluator_feed]
  exact Calculator.reset_next_alike env r.patience line formed

/-- A line that is not interrupted leaves session and evaluator in step. -/
lemma isUnfinished_feed (formed : r.evaluator.WellFormed)
    (calm : (r.submission env line).outcome ≠ .interrupted) :
    (r.feed env line).evaluator.isUnfinished = !(r.feed env line).buffer.isEmpty := by
  have next := Calculator.isUnfinished_next env r.patience line formed calm
  change (r.submission env line).next.isUnfinished = (r.submission env line).outcome.asksMore at next
  rw [evaluator_feed, buffer_feed, next]
  cases (r.submission env line).outcome.asksMore <;> simp

/-- A user who never interrupts does not begin to. -/
lemma never_feed (env : Environment) (line : Bytes) (formed : r.evaluator.WellFormed)
    (never : r.patience = {}) :
    (r.submission env line).outcome ≠ .interrupted ∧ (r.feed env line).patience = {} := by
  have calm := Calculator.calm_submit env line formed
  rw [patience_feed]
  unfold submission
  rw [never]
  exact calm

/-! ### Many lines -/

lemma wellFormed_foldl (formed : r.evaluator.WellFormed) (lines : List Bytes) :
    (lines.foldl (feed env) r).evaluator.WellFormed := by
  induction lines generalizing r with
  | nil => exact formed
  | cons line lines ih => exact ih (wellFormed_feed formed)

lemma reset_foldl (formed : r.evaluator.WellFormed) (lines : List Bytes) :
    (lines.foldl (feed env) r).evaluator.reset.Alike r.evaluator.reset := by
  induction lines generalizing r with
  | nil => exact .refl _
  | cons line lines ih => exact (ih (wellFormed_feed formed)).trans (reset_feed formed)

lemma isQuiet_of_never (formed : r.evaluator.WellFormed) (never : r.patience = {})
    (lines : List Bytes) : IsQuiet env r lines := by
  induction lines generalizing r with
  | nil => trivial
  | cons line lines ih =>
    obtain ⟨calm, never⟩ := never_feed env line formed never
    exact ⟨calm, ih (wellFormed_feed formed) never⟩

/-- When the user interrupts makes no difference as long as no line is interrupted. -/
theorem Same.foldl (h : Same r r') (formed : r.evaluator.WellFormed) {lines : List Bytes}
    (quiet : IsQuiet env r lines) (quiet' : IsQuiet env r' lines) :
    Same (lines.foldl (Replay.feed env) r) (lines.foldl (Replay.feed env) r') := by
  induction lines generalizing r r' with
  | nil => exact h
  | cons line lines ih =>
    exact ih (h.feed line formed quiet.1 quiet'.1) (wellFormed_feed formed) quiet.2 quiet'.2

/-- The lines that were interrupted make no difference to the evaluator. -/
theorem alike_survivors (h : r.evaluator.Alike r'.evaluator) (formed : r.evaluator.WellFormed)
    (never : r'.patience = {}) (lines : List Bytes) :
    (lines.foldl (feed env) r).evaluator.Alike
      ((survivors env r lines).foldl (feed env) r').evaluator := by
  induction lines generalizing r r' with
  | nil => exact h
  | cons line lines ih =>
    rw [survivors, List.foldl_cons]
    split
    · rename_i cut
      have back := Calculator.next_alike_of_interrupted env r.patience line cut
      exact ih (by rw [evaluator_feed]; exact back.trans h) (wellFormed_feed formed) never
    · rename_i calm
      obtain ⟨calm', never⟩ := never_feed env line (h.wellFormed formed) never
      have next := (h.submit env r.patience r'.patience line formed calm calm').2.2
      refine ih ?_ (wellFormed_feed formed) never
      rw [evaluator_feed, evaluator_feed]
      exact next

/-- A replay ends in step with its evaluator unless its last line was cut off from a statement that
the evaluator goes on with. -/
theorem isUnfinished_foldl_iff (formed : r.evaluator.WellFormed)
    (start : r.evaluator.isUnfinished = !r.buffer.isEmpty) (lines : List Bytes) :
    (lines.foldl (feed env) r).evaluator.isUnfinished =
        (!(lines.foldl (feed env) r).buffer.isEmpty) ↔
      ¬ ((lines.foldl (feed env) r).evaluator.isUnfinished ∧ IsCutAtEnd env r lines) := by
  rcases lines.eq_nil_or_concat with rfl | ⟨front, last, rfl⟩
  · have whole : ¬ IsCutAtEnd env r [] := by
      rintro ⟨front, last, same, -⟩
      simp at same
    exact iff_of_true start fun h => whole h.2
  · have formed : (front.foldl (feed env) r).evaluator.WellFormed := wellFormed_foldl formed front
    rw [List.concat_eq_append, isCutAtEnd_concat, List.foldl_concat]
    by_cases cut : ((front.foldl (feed env) r).submission env last).outcome = .interrupted
    · rw [buffer_feed, cut]
      simp [Outcome.asksMore]
    · exact iff_of_true (isUnfinished_feed formed cut) fun h => cut h.2

/-! ### Undisturbed replays -/

variable {c c' : Calculator} {lines : List Bytes}

lemma wellFormed_undisturbed : (undisturbed env c lines).evaluator.WellFormed :=
  wellFormed_foldl (Calculator.wellFormed_reset c) lines

lemma isQuiet_undisturbed (c : Calculator) (lines : List Bytes) :
    IsQuiet env (start c {}) lines :=
  isQuiet_of_never (Calculator.wellFormed_reset c) rfl lines

lemma same_undisturbed_of_reset (h : c.reset.Alike c'.reset) :
    Same (undisturbed env c lines) (undisturbed env c' lines) := by
  have begun : Same (start c {}) (start c' {}) := ⟨h, rfl⟩
  exact begun.foldl (Calculator.wellFormed_reset c) (isQuiet_undisturbed c lines)
    (isQuiet_undisturbed c' lines)

/-- A replay in which no line is interrupted does what an undisturbed one does. -/
lemma same_undisturbed_of_isQuiet {patience : Patience}
    (quiet : IsQuiet env (start c patience) lines) :
    Same (lines.foldl (feed env) (start c patience)) (undisturbed env c lines) := by
  have begun : Same (start c patience) (start c {}) := ⟨.refl _, rfl⟩
  exact begun.foldl (Calculator.wellFormed_reset c) quiet (isQuiet_undisturbed c lines)

/-- A replay leaves what an undisturbed one of the lines that it gets through leaves. -/
lemma alike_undisturbed_survivors (c : Calculator) (patience : Patience) (lines : List Bytes) :
    (lines.foldl (feed env) (start c patience)).evaluator.Alike
      (undisturbed env c (survivors env (start c patience) lines)).evaluator := by
  have begun : (start c patience).evaluator.Alike (start c {}).evaluator := .refl _
  exact alike_survivors begun (Calculator.wellFormed_reset c) rfl lines

lemma never_undisturbed : (undisturbed env c lines).patience = {} := by
  induction lines using List.reverseRecOn with
  | nil => rfl
  | append_singleton lines line ih =>
    rw [undisturbed_concat]
    exact (never_feed env line wellFormed_undisturbed ih).2

/-- A replay in which no line is interrupted keeps session and evaluator in step. -/
theorem isUnfinished_undisturbed :
    (undisturbed env c lines).evaluator.isUnfinished =
      !(undisturbed env c lines).buffer.isEmpty := by
  induction lines using List.reverseRecOn with
  | nil => rfl
  | append_singleton lines line ih =>
    rw [undisturbed_concat]
    exact isUnfinished_feed wellFormed_undisturbed
      (never_feed env line wellFormed_undisturbed never_undisturbed).1

/-- The lines of an unfinished statement change no names. -/
theorem names_undisturbed_before_buffer :
    (undisturbed env c (lines.take
      (lines.length - (undisturbed env c lines).buffer.length))).evaluator.names =
      (undisturbed env c lines).evaluator.names := by
  induction lines using List.reverseRecOn with
  | nil => rfl
  | append_singleton lines line ih =>
    rw [undisturbed_concat, buffer_feed]
    split
    · rename_i more
      have names : ((undisturbed env c lines).feed env line).evaluator.names =
          (undisturbed env c lines).evaluator.names := by
        rw [evaluator_feed]
        exact Calculator.names_next_of_asksMore env _ line wellFormed_undisturbed more
      have cut : (lines ++ [line]).length - ((undisturbed env c lines).buffer ++ [line]).length =
          lines.length - (undisturbed env c lines).buffer.length := by simp
      rw [names, cut, List.take_append_of_le_length (Nat.sub_le _ _), ih]
    · rw [List.length_nil, Nat.sub_zero, List.take_length, undisturbed_concat]

end CalcShell.Session.Replay
