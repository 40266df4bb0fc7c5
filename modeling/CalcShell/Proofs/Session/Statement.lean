import CalcShell.Proofs.Screen.Brackets
import CalcShell.Proofs.Session.Runs

/-! Where the unfinished statement stands in the transcript. The renderer remembers its first line;
from there on the input lines are those of the statement, as far as the transcript still has them, until
an undo goes back into a statement that was finished. -/
namespace CalcShell.Session

section

variable {ε : Type}

namespace Core

/-- The evaluated lines of the unfinished statement. -/
def unfinished (c : Core ε) : List Evaluated :=
  c.evaluated.drop (c.evaluated.length - c.buffer.length)

/-- Lines, statement and page belong together: the statement is made of the lines evaluated last, each
line has its number, and the start of the statement lies in the transcript. -/
structure Traced (c : Core ε) (p : Page) : Prop where
  buffer : c.unfinished.map (·.text) = c.buffer
  marks : c.evaluated.Pairwise (·.mark < ·.mark)
  below : ∀ line ∈ c.evaluated, line.mark < p.transcript.mark
  start : p.start ≤ p.transcript.mark
  readable : p.transcript.IsReadable

/-- From the start of the statement on, the input lines are those of the statement that the transcript
still has. -/
def Located (c : Core ε) (p : Page) : Prop :=
  p.statement = c.unfinished.filter (p.transcript.first ≤ ·.mark)

variable {c : Core ε} {p : Page}

lemma unfinished_of_nil (none : c.buffer = []) : c.unfinished = [] := by
  rw [unfinished, none, List.length_nil, Nat.sub_zero, List.drop_length]

lemma Traced.below_unfinished (h : c.Traced p) {line : Evaluated} (mem : line ∈ c.unfinished) :
    line.mark < p.transcript.mark := h.below line (List.mem_of_mem_drop mem)

/-- Where no statement is unfinished, the next one begins behind the transcript. -/
lemma located_turn_false (none : c.buffer = []) (p : Page) : c.Located (p.turn false) := by
  rw [Located, unfinished_of_nil none]
  exact p.statement_turn_false

/-! ### Clearing and giving up -/

lemma Traced.clear (h : c.Traced p) : c.Traced p.clear where
  buffer := h.buffer
  marks := h.marks
  below line mem := by
    rw [Page.clear, Transcript.mark_clear]
    exact h.below line mem
  start := by
    rw [Page.clear, Transcript.mark_clear]
    exact h.start
  readable := p.transcript.isReadable_clear

lemma Traced.located_clear (h : c.Traced p) : c.Located p.clear := by
  refine Eq.trans (b := []) rfl (Eq.symm (List.filter_eq_nil_iff.2 fun line mem => ?_))
  have below := h.below_unfinished mem
  rw [decide_eq_true_eq, Nat.not_le]
  exact below

lemma Traced.add_turn (h : c.Traced p) {text : Bytes} {lines : List TranscriptLine}
    (entry : IsEntry text lines) (goesOn : Bool) : c.Traced ((p.add lines).turn goesOn) := by
  have mark : (p.add lines).transcript.mark = p.transcript.mark + lines.length :=
    p.transcript.mark_pushAll lines
  refine ⟨h.buffer, h.marks, fun line mem => ?_, ?_, h.readable.pushAll_of_isEntry entry⟩
  · have := h.below line mem
    rw [Page.transcript_turn, mark]
    omega
  · rw [Page.transcript_turn, mark]
    cases goesOn with
    | true => exact Nat.le_trans h.start (Nat.le_add_right _ _)
    | false => exact Nat.le_of_eq mark

/-! ### Taking back -/

/-- The unfinished statement ends with the line that was evaluated last. -/
lemma unfinished_eq_concat {front : List Evaluated} {last : Evaluated}
    (evaluated : c.evaluated = front ++ [last]) (some : c.buffer ≠ []) :
    c.unfinished = front.drop (c.evaluated.length - c.buffer.length) ++ [last] := by
  have length := List.length_pos_iff.2 some
  have cut : c.evaluated.length - c.buffer.length ≤ front.length := by
    rw [evaluated, List.length_append, List.length_singleton]
    omega
  rw [unfinished]
  generalize c.evaluated.length - c.buffer.length = n at cut ⊢
  rw [evaluated, List.drop_append_of_le_length cut]

lemma unfinished_eq_dropLast {front : List Evaluated} {last : Evaluated}
    (evaluated : c.evaluated = front ++ [last]) (some : c.buffer ≠ []) :
    c.unfinished = c.unfinished.dropLast ++ [last] := by
  rw [unfinished_eq_concat evaluated some, List.dropLast_concat]

/-- Rewinding to the last line leaves the other lines of the statement. -/
lemma Located.statement_rewind (h : c.Located p) (traced : c.Traced p) {front : List Evaluated}
    {last : Evaluated} (evaluated : c.evaluated = front ++ [last]) :
    (p.rewind last.mark).statement =
      c.unfinished.dropLast.filter (p.transcript.first ≤ ·.mark) := by
  rw [Page.statement_rewind traced.start, h]
  by_cases none : c.buffer = []
  · rw [unfinished_of_nil none]
    rfl
  · have before : ∀ early ∈ c.unfinished.dropLast, early.mark < last.mark := by
      have marks : c.unfinished.Pairwise (·.mark < ·.mark) := traced.marks.sublist (List.drop_sublist _ _)
      rw [unfinished_eq_dropLast evaluated none, List.pairwise_append] at marks
      exact fun early mem => marks.2.2 early mem last List.mem_cons_self
    rw [unfinished_eq_dropLast evaluated none, List.dropLast_concat]
    exact filter_rewound before _

lemma evaluated_back {front : List Evaluated} {last : Evaluated}
    (evaluated : c.evaluated = front ++ [last]) (r : Replay ε) : (c.back 1 r).evaluated = front := by
  rw [back, evaluated, List.length_append, List.length_singleton, Nat.add_sub_cancel, List.take_left]

/-- The statement that a replay goes on with is made of the lines that were evaluated last. -/
lemma Traced.undo (h : c.Traced p) {front : List Evaluated} {last : Evaluated}
    (evaluated : c.evaluated = front ++ [last]) {r : Replay ε}
    (suffix : r.buffer <:+ front.map (·.text)) :
    (c.back 1 r).Traced ((p.rewind last.mark).turn (!r.buffer.isEmpty)) := by
  have remaining := evaluated_back evaluated r
  have below := h.below
  have marks := h.marks
  rw [evaluated] at below marks
  have marks := List.pairwise_append.1 marks
  have mark : last.mark ≤ (p.rewind last.mark).transcript.mark := by
    have := below last (by simp)
    rw [Page.mark_rewind]
    omega
  refine ⟨?_, ?_, fun early mem => ?_, ?_, ?_⟩
  · have length : (front.map (·.text)).length = front.length := List.length_map _
    rw [unfinished, remaining, List.map_drop, ← length]
    exact (List.suffix_iff_eq_drop.1 suffix).symm
  · rw [remaining]
    exact marks.1
  · rw [remaining] at mem
    exact Nat.lt_of_lt_of_le (marks.2.2 early mem last List.mem_cons_self) mark
  · cases r.buffer.isEmpty with
    | true => exact Nat.le_refl _
    | false =>
      change (p.rewind last.mark).start ≤ (p.rewind last.mark).transcript.mark
      rw [Page.start_rewind h.start, Page.mark_rewind]
      have := h.start
      omega
  · rw [Page.transcript_turn, Page.transcript_rewind_eq]
    exact h.readable.rewind _

/-- After an undo the statement is located just when the replay goes on with the lines that were left of
it, as far as the transcript has them. -/
lemma located_undo_iff (located : c.Located p) (traced : c.Traced p) {front : List Evaluated}
    {last : Evaluated} (evaluated : c.evaluated = front ++ [last]) (r : Replay ε) :
    (c.back 1 r).Located ((p.rewind last.mark).turn (!r.buffer.isEmpty)) ↔
      (r.buffer ≠ [] → (c.back 1 r).unfinished.filter (p.transcript.first ≤ ·.mark) =
        c.unfinished.dropLast.filter (p.transcript.first ≤ ·.mark)) := by
  by_cases none : r.buffer = []
  · refine iff_of_true ?_ fun some => absurd none some
    have finished : (!r.buffer.isEmpty) = false := by simpa using none
    rw [finished]
    exact located_turn_false none _
  · have goesOn : (!r.buffer.isEmpty) = true := by simpa using none
    have first : (p.rewind last.mark).transcript.first = p.transcript.first := by
      rw [Page.transcript_rewind_eq, Transcript.first_rewind]
    rw [goesOn, Located, Page.transcript_turn, first]
    change (p.rewind last.mark).statement = _ ↔ _
    rw [located.statement_rewind traced evaluated, eq_comm]
    simp [none]

lemma Traced.cancel (h : c.Traced p) (evaluator : ε) (n : Nat) {text : Bytes}
    {lines : List TranscriptLine} (entry : IsEntry text lines) :
    { c with
      evaluator, buffer := [], evaluated := c.evaluated.take n, isExiting := false }.Traced
        ((p.add lines).turn false) where
  buffer := by
    rw [unfinished_of_nil rfl]
    rfl
  marks := h.marks.sublist (List.take_sublist _ _)
  below line mem := (h.add_turn entry false).below line (List.mem_of_mem_take mem)
  start := (h.add_turn entry false).start
  readable := (h.add_turn entry false).readable

/-! ### Submitting -/

lemma unfinished_concat (c : Core ε) (line : Evaluated) :
    (c.evaluated ++ [line]).drop
        ((c.evaluated ++ [line]).length - (c.buffer ++ [line.text]).length) =
      c.unfinished ++ [line] := by
  have cut : (c.evaluated ++ [line]).length - (c.buffer ++ [line.text]).length =
      c.evaluated.length - c.buffer.length := by
    simp
  rw [cut, List.drop_append_of_le_length (Nat.sub_le _ _), unfinished]

variable [Evaluator ε] {patience : Patience} {line : Evaluated} {lines : List TranscriptLine}

lemma Traced.take_of_taken (h : c.Traced p) (number : line.mark = p.transcript.mark)
    (entry : IsEntry line.text lines)
    (calm : (c.submit patience line.text).outcome ≠ .interrupted)
    (stays : (c.submit patience line.text).outcome ≠ .exit) :
    (c.take line (c.submit patience line.text)).Traced
      (p.take lines (!c.buffer.isEmpty) (c.submit patience line.text).outcome) := by
  rw [Core.take_of_taken c line calm stays, Page.take_of_taken calm stays]
  generalize (c.submit patience line.text).outcome.asksMore = more
  have turned := h.add_turn entry more
  refine ⟨?_, ?_, ?_, turned.start, turned.readable⟩
  · cases more with
    | true =>
      unfold unfinished
      dsimp only
      rw [if_pos rfl, unfinished_concat, List.map_append, h.buffer]
      rfl
    | false => rw [unfinished_of_nil rfl]; rfl
  · refine List.pairwise_append.2 ⟨h.marks, List.pairwise_singleton _ _, fun early mem last isLast => ?_⟩
    rw [List.mem_singleton.1 isLast, number]
    exact h.below early mem
  · intro early mem
    rcases List.mem_append.1 mem with old | isLast
    · exact turned.below early old
    · have mark : (p.add lines).transcript.mark = p.transcript.mark + lines.length :=
        p.transcript.mark_pushAll lines
      have length : 0 < lines.length := by
        cases lines with
        | nil => exact entry.elim
        | cons _ _ => exact Nat.succ_pos _
      rw [List.mem_singleton.1 isLast, Page.transcript_turn, mark, number]
      omega

lemma Located.take_of_taken (h : c.Located p) (traced : c.Traced p)
    (number : line.mark = p.transcript.mark) (entry : IsEntry line.text lines)
    (calm : (c.submit patience line.text).outcome ≠ .interrupted)
    (stays : (c.submit patience line.text).outcome ≠ .exit) :
    (c.take line (c.submit patience line.text)).Located
      (p.take lines (!c.buffer.isEmpty) (c.submit patience line.text).outcome) := by
  rw [Core.take_of_taken c line calm stays, Page.take_of_taken calm stays]
  cases (c.submit patience line.text).outcome.asksMore with
  | true =>
    have same : Evaluated.mk line.text p.transcript.mark = line := by rw [← number]
    have grown : p.transcript.first ≤ (p.add lines).transcript.first :=
      p.transcript.first_le_pushAll lines
    unfold Located unfinished
    dsimp only
    rw [if_pos rfl, unfinished_concat]
    change (p.add lines).statement = _
    rw [Page.statement_add traced.start entry, same, h, List.filter_append, List.filter_append,
      filter_filter_le grown]
    rfl
  | false => exact located_turn_false rfl _

lemma take_of_interrupted (cut : (c.submit patience line.text).outcome = .interrupted)
    (p : Page) (lines : List TranscriptLine) (goesOn : Bool) :
    c.take line (c.submit patience line.text) =
        { c with evaluator := (c.submit patience line.text).next, isExiting := false } ∧
      p.take lines goesOn (c.submit patience line.text).outcome =
        ((p.add lines).rewind p.transcript.mark).turn goesOn := by
  rw [Core.take, cut]
  exact ⟨rfl, rfl⟩

lemma Traced.take_of_interrupted (h : c.Traced p) (entry : IsEntry line.text lines)
    (cut : (c.submit patience line.text).outcome = .interrupted) (goesOn : Bool) :
    (c.take line (c.submit patience line.text)).Traced
      (p.take lines goesOn (c.submit patience line.text).outcome) := by
  have added := h.add_turn entry true
  have mark : p.transcript.mark ≤ ((p.add lines).rewind p.transcript.mark).transcript.mark := by
    have : (p.add lines).transcript.mark = p.transcript.mark + lines.length :=
      p.transcript.mark_pushAll lines
    rw [Page.mark_rewind]
    omega
  obtain ⟨core, page⟩ := Core.take_of_interrupted cut p lines goesOn
  rw [core, page]
  refine ⟨h.buffer, h.marks, fun early mem => ?_, ?_, ?_⟩
  · exact Nat.lt_of_lt_of_le (h.below early mem) mark
  · cases goesOn with
    | true =>
      have start : (p.add lines).start ≤ (p.add lines).transcript.mark := added.start
      change ((p.add lines).rewind p.transcript.mark).start ≤ _
      rw [Page.start_rewind start]
      exact Nat.le_trans (Nat.min_le_left _ _) (Nat.le_trans h.start mark)
    | false => exact Nat.le_refl _
  · rw [Page.transcript_turn, Page.transcript_rewind_eq]
    exact added.readable.rewind _

/-- Rewinding takes the interrupted line out again, and no other line of the statement. -/
lemma Located.take_of_interrupted (h : c.Located p) (traced : c.Traced p)
    (entry : IsEntry line.text lines)
    (cut : (c.submit patience line.text).outcome = .interrupted) :
    (c.take line (c.submit patience line.text)).Located
      (p.take lines (!c.buffer.isEmpty) (c.submit patience line.text).outcome) := by
  obtain ⟨core, page⟩ := Core.take_of_interrupted cut p lines (!c.buffer.isEmpty)
  rw [core, page]
  by_cases none : c.buffer = []
  · have finished : (!c.buffer.isEmpty) = false := by simpa using none
    rw [finished]
    exact located_turn_false none _
  · have goesOn : (!c.buffer.isEmpty) = true := by simpa using none
    have added : (p.add lines).start ≤ (p.add lines).transcript.mark :=
      (traced.add_turn entry true).start
    have grown : p.transcript.first ≤ (p.add lines).transcript.first :=
      p.transcript.first_le_pushAll lines
    rw [goesOn, Located, Page.transcript_turn, Page.transcript_rewind_eq, Transcript.first_rewind]
    change ((p.add lines).rewind p.transcript.mark).statement = _
    have before : ∀ early ∈ p.statement,
        early.mark < (Evaluated.mk line.text p.transcript.mark).mark := by
      rw [h]
      exact fun early mem => traced.below_unfinished (List.mem_of_mem_filter mem)
    rw [Page.statement_rewind added, Page.statement_add traced.start entry]
    refine (filter_rewound before _).trans ?_
    rw [h, filter_filter_le grown]
    rfl

end Core

variable [Evaluator ε]

lemma lasting_traced : Lasting fun (c : Core ε) p => c.isExiting = true ∨ c.Traced p :=
  lasting_of_running (fun h => h.clear) (fun h _ entry => h.add_turn entry false)
    (fun h number entry => h.take_of_taken number entry)
    fun h entry cut => h.take_of_interrupted entry cut _

/-- The statement is located, and everything belongs together. -/
structure Core.Placed (c : Core ε) (p : Page) : Prop where
  located : c.Located p
  traced : c.Traced p

lemma lasting_placed : Lasting fun (c : Core ε) p => c.isExiting = true ∨ c.Placed p :=
  lasting_of_running
    (fun h => ⟨h.traced.located_clear, h.traced.clear⟩)
    (fun h none entry => ⟨Core.located_turn_false none _, h.traced.add_turn entry false⟩)
    (fun h number entry calm stays =>
      ⟨h.located.take_of_taken h.traced number entry calm stays,
        h.traced.take_of_taken number entry calm stays⟩)
    fun h entry cut =>
      ⟨h.located.take_of_interrupted h.traced entry cut, h.traced.take_of_interrupted entry cut _⟩

end

end CalcShell.Session
