import CalcShell.Program.Shell
import CalcShell.Proofs.Calc.Statements
import CalcShell.Proofs.Session.Page

/-! An interrupted line leaves no trace in what was evaluated, and none in the transcript unless the
transcript was too full for the line and for what was written before the interrupt. -/
namespace CalcShell.Session
open CalcShell.Calc (Calculator)

section

variable {ε : Type} [Evaluator ε] {s : Session ε} (cut : s.submission.outcome = .interrupted)
  (now : Int)
include cut

lemma core_submit_of_interrupted :
    (s.submit now).core = { s.core with evaluator := s.submission.next, isExiting := false } := by
  rw [core_submit, Core.take, cut]

lemma transcript_submit_of_interrupted : (s.submit now).transcript =
    ((s.page.add (s.inputLine :: shown s.streams s.submission)).rewind
      s.transcript.mark).transcript :=
  congrArg Page.transcript (page_submit_of_interrupted cut now)

/-- An old line that had to go stays away. -/
lemma first_submit_of_interrupted : (s.submit now).transcript.first =
    (s.transcript.pushAll (s.inputLine :: shown s.streams s.submission)).first := by
  rw [transcript_submit_of_interrupted cut, Page.transcript_rewind_eq, Transcript.first_rewind]
  rfl

lemma transcript_submit_of_interrupted_of_room
    (room : s.transcript.lines.size + 1 + (shown s.streams s.submission).length ≤
      Transcript.limit) : (s.submit now).transcript = s.transcript := by
  rw [transcript_submit_of_interrupted cut]
  refine Page.transcript_rewind (Transcript.extends_pushAll _ _) ?_
  refine Transcript.first_pushAll_of_room (t := s.transcript) ?_
  rw [List.length_cons]
  omega

/-- Unless a whole transcript was written up to the interrupt, no more is lost than the lines that had to go. -/
lemma mark_submit_of_interrupted (fits : (shown s.streams s.submission).length < Transcript.limit) :
    (s.submit now).transcript.mark = s.transcript.mark ∧
      (s.submit now).transcript.lines.toList = s.transcript.lines.toList.drop
        (s.transcript.lines.size + 1 + (shown s.streams s.submission).length - Transcript.limit) := by
  obtain ⟨below, mark, lines⟩ := s.transcript.rewind_pushAll
    (List.cons_ne_nil s.inputLine (shown s.streams s.submission)) fits
  have back : (s.submit now).transcript =
      (s.transcript.pushAll (s.inputLine :: shown s.streams s.submission)).rewind s.transcript.mark := by
    rw [transcript_submit_of_interrupted cut, Page.transcript_rewind_eq]
    exact congrArg _ (Nat.max_eq_left below)
  rw [back, Nat.add_assoc, Nat.add_comm 1]
  exact ⟨mark, lines⟩

end

/-- Wherever an interrupt stops a line, the evaluated lines, the unfinished statement and the
calculator are those before the line, and so is the transcript if it had room for the line and for what
was written up to then. Without room for them it loses its oldest lines, one for each line too many, but
its mark stays the same unless a whole transcript was written. -/
theorem state_submit_of_interrupted {s : Session Calculator}
    (cut : s.submission.outcome = .interrupted) (now : Int) :
    let s' := s.submit now
    s'.evaluated = s.evaluated ∧ s'.buffer = s.buffer ∧ s'.isContinuation = s.isContinuation ∧
      s'.evaluator.Alike s.evaluator ∧
      (s.transcript.lines.size + 1 + (shown s.streams s.submission).length ≤ Transcript.limit →
        s'.transcript = s.transcript) ∧
      ((shown s.streams s.submission).length < Transcript.limit →
        s'.transcript.mark = s.transcript.mark ∧
          s'.transcript.lines.toList = s.transcript.lines.toList.drop
            (s.transcript.lines.size + 1 + (shown s.streams s.submission).length - Transcript.limit)) := by
  have core := core_submit_of_interrupted cut now
  have evaluated : (s.submit now).evaluated = s.evaluated := congrArg Core.evaluated core
  have buffer : (s.submit now).buffer = s.buffer := congrArg Core.buffer core
  have evaluator : (s.submit now).evaluator = s.submission.next := congrArg Core.evaluator core
  refine ⟨evaluated, buffer, ?_, ?_, transcript_submit_of_interrupted_of_room cut now,
    mark_submit_of_interrupted cut now⟩
  · rw [isContinuation, buffer]
    rfl
  · rw [evaluator]
    exact Calculator.next_alike_of_interrupted _ _ _ cut

/-- The second line of a statement, interrupted after it has written a line. -/
theorem state_submit_of_interrupted_in_statement :
    let s : Session Calculator :=
      { (((Shell.start {} {} none {}).submitText (bytes "x = 1") 0).submitText
          (bytes "(print('a')") 1).withPatience (.atCheck 2) with
        line := { before := bytes "or sleep(0) or sleep(0))" } }
    s.submission.pieces = [{ text := bytes "a\n" }] ∧
      let s' := s.submit 2
      s'.evaluated = s.evaluated ∧ s'.buffer = s.buffer ∧ s'.isContinuation = s.isContinuation ∧
        s'.evaluator.Alike s.evaluator ∧ s'.transcript = s.transcript := by
  intro s
  obtain ⟨cut, pieces, room⟩ : s.submission.outcome = .interrupted ∧
      s.submission.pieces = [{ text := bytes "a\n" }] ∧
      s.transcript.lines.size + 1 + (shown s.streams s.submission).length ≤ Transcript.limit := by
    decide +kernel
  have h := state_submit_of_interrupted cut 2
  exact ⟨pieces, h.1, h.2.1, h.2.2.1, h.2.2.2.1, h.2.2.2.2.1 room⟩

lemma splitOn_replicate (n : Nat) :
    Bytes.splitOn Ascii.newline (List.replicate n Ascii.newline) = List.replicate (n + 1) [] := by
  induction n with
  | zero => rfl
  | succ n ih => rw [List.replicate_succ, Bytes.splitOn, if_pos rfl, ih, ← List.replicate_succ]

lemma lines_replicate (n : Nat) :
    Bytes.lines (List.replicate n Ascii.newline) = List.replicate n [] := by
  rw [Bytes.lines, splitOn_replicate, List.reverse_replicate, List.replicate_succ]
  simp

/-- A banner of empty lines fills a transcript. -/
lemma transcript_start_replicate {ε : Type} {s : Session ε} (fresh : s.transcript = {}) {n : Nat}
    (fits : n ≤ Transcript.limit) :
    (s.start (List.replicate n Ascii.newline)).transcript.first = 0 ∧
      (s.start (List.replicate n Ascii.newline)).transcript.lines.size = n := by
  have length : (written [{ text := List.replicate n Ascii.newline }]).length = n := by
    simp [written, Transcript.outputLines, lines_replicate]
  have start : (s.start (List.replicate n Ascii.newline)).transcript =
      ({} : Transcript).pushAll (written [{ text := List.replicate n Ascii.newline }]) := by
    rw [← fresh]
    exact congrArg Page.transcript (page_start s _)
  have first : (({} : Transcript).pushAll
      (written [{ text := List.replicate n Ascii.newline }])).first = 0 := by
    refine Transcript.first_pushAll_of_room (t := {}) ?_
    rw [length, List.size_toArray, List.length_nil, Nat.zero_add]
    exact fits
  rw [start]
  refine ⟨first, ?_⟩
  rw [Transcript.pushAll_of_first_eq first]
  simp [length]

section

variable {ε : Type} [Evaluator ε] {s : Session ε}

/-- In a full transcript the line itself drops the oldest line for good. -/
lemma transcript_submit_ne_of_full (cut : s.submission.outcome = .interrupted)
    (silent : s.submission.pieces = []) (full : s.transcript.lines.size = Transcript.limit)
    (now : Int) : (s.submit now).transcript ≠ s.transcript := by
  intro same
  have shown : shown s.streams s.submission = [] := by
    unfold shown
    rw [silent]
    split <;> rfl
  have first := first_submit_of_interrupted cut now
  rw [shown, same] at first
  have gone : s.transcript.first = s.transcript.first + 1 :=
    first.trans (Transcript.first_push_of_full full _)
  omega

end

lemma transcript_withPatience_typed {ε : Type} (s : Session ε) (patience : Patience)
    (line : InputLine) :
    ({ s.withPatience patience with line } : Session ε).transcript = s.transcript := rfl

/-- Below a banner of 5000 lines an interrupted line that has written nothing changes the
transcript. -/
theorem full_transcript_loses_line :
    let s : Session Calculator :=
      { ((Shell.session {} {} {}).start
          (List.replicate Transcript.limit Ascii.newline)).withPatience (.atCheck 1) with
        line := { before := bytes "sleep(0)" } }
    s.submission.outcome = .interrupted ∧ s.submission.pieces = [] ∧
      s.transcript.lines.size = Transcript.limit ∧ (s.submit 0).transcript ≠ s.transcript := by
  intro s
  obtain ⟨cut, silent⟩ : s.submission.outcome = .interrupted ∧ s.submission.pieces = [] := by
    decide +kernel
  have full : s.transcript.lines.size = Transcript.limit := by
    rw [transcript_withPatience_typed]
    exact (transcript_start_replicate (s := Shell.session {} {} {}) rfl (Nat.le_refl _)).2
  exact ⟨cut, silent, full, transcript_submit_ne_of_full cut silent full 0⟩

end CalcShell.Session
