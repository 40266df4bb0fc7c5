import CalcShell.Evaluation.Echo
import CalcShell.Program.Shell
import CalcShell.Proofs.Editing.History
import CalcShell.Proofs.Editing.Line
import CalcShell.Proofs.Session.Submission
import Mathlib.Algebra.Group.Nat.Defs

/-! What the user finds again after interrupting a line: the line itself, the cursor in it and the
history. -/
namespace CalcShell.Session

variable {ε : Type}

/-- What the user edits. -/
def input (s : Session ε) : History × InputLine := (s.history, s.line)

@[simp] lemma input_draw (s : Session ε) : s.draw.input = s.input := rfl

@[simp] lemma input_showMessage (s : Session ε) (text : Bytes) (now : Int) :
    (s.showMessage text now).input = s.input := rfl

lemma input_stream (s : Session ε) (piece : Piece) : (s.stream piece).input = s.input := by
  unfold stream
  dsimp only
  split <;> rfl

lemma input_follow (s : Session ε) (sub : Submission ε) : (s.follow sub).input = s.input := by
  unfold follow
  dsimp only
  split
  · exact view_foldl input input_stream sub.pieces _
  · rfl

lemma input_editAgain (s before : Session ε) (now : Int) : (s.editAgain before now).input =
    (before.history.popIfLonger s.history,
      (s.line.set before.line.text).move (cursorMotion before.line)) := by
  unfold editAgain History.popIfLonger
  dsimp only
  rw [input_draw, input_showMessage]
  dsimp only [input]

variable [Evaluator ε]

lemma input_evaluate (s : Session ε) :
    s.evaluate.input = (s.history.append s.line.text, s.line) := input_follow _ _

/-- An interrupted line is edited again, at the end and from there back. -/
lemma input_submit_of_interrupted {s : Session ε} (cut : s.submission.outcome = .interrupted)
    (now : Int) :
    (s.submit now).history = s.history.popIfLonger (s.history.append s.line.text) ∧
      (s.submit now).line = (s.line.set s.line.text).move (cursorMotion s.line) := by
  obtain ⟨history, line⟩ := Prod.mk.inj (input_evaluate s)
  have again := input_editAgain s.evaluate s now
  rw [history, line] at again
  rw [submit_eq, cut]
  exact Prod.mk.inj again

/-! ### The history -/

/-- The history is the same again after an interrupted line, unless it was full: then its oldest
entry has gone and the line stays, which shows as soon as one entry is another line. -/
theorem entries_submit_eq_iff_of_interrupted {s : Session ε}
    (cut : s.submission.outcome = .interrupted) (now : Int) :
    (s.submit now).history.entries = s.history.entries ↔
      s.line.text = [] ∨ s.history.limit = 0 ∨
        s.history.entries.length < s.history.limit ∨
        (s.history.entries.length = s.history.limit ∧
          ∀ e ∈ s.history.entries, e = s.line.text) := by
  rw [(input_submit_of_interrupted cut now).1]
  exact History.entries_popIfLonger_eq_iff

theorem entries_submit_below_limit :
    let s : Session Echo :=
      { Session.new {} {} (fun _ _ => none) (fun _ => []) { entries := [bytes "1"], limit := 2 } {} with
        line := { before := bytes "sleep()" } }
    (s.submit 0).history.entries = s.history.entries :=
  (entries_submit_eq_iff_of_interrupted (by decide +kernel) 0).2 (by decide +kernel)

/-- In a history of one entry an interrupted line takes the place of this entry. -/
theorem full_history_keeps_interrupted_line :
    let s := ((Shell.start {} { limit := 1 } none {}).submitText (bytes "1") 0).withPatience
      (.atCheck 1)
    ({ s with line := s.line.set (bytes "sleep(0)") }).submission.outcome = .interrupted ∧
      s.history.entries = [bytes "1"] ∧
      (s.submitText (bytes "sleep(0)") 1).history.entries = [bytes "sleep(0)"] := by
  decide +kernel

/-! ### The line -/

lemma cursorMotion_of_offset_lt {line : InputLine} (h : line.offset < 2 ^ 31) :
    cursorMotion line = line.offset := by
  unfold cursorMotion
  rw [Int.bmod_eq_of_le] <;> omega

/-- The text of an interrupted line is the same again. The cursor goes back by as many characters as
there were bytes on its right, so that it is where it was just when those numbers agree: in a line
that is not too long, when there is only ASCII on its right. -/
theorem line_submit_of_interrupted {s : Session ε}
    (cut : s.submission.outcome = .interrupted) (now : Int) (left right : List Char)
    (before : s.line.before = Utf8.encode left) (after : s.line.after = Utf8.encode right) :
    (s.submit now).line.text = s.line.text ∧
      ((s.submit now).line.offset = s.line.offset ↔ right.length = cursorMotion s.line) ∧
      (s.line.offset < 2 ^ 31 → ((s.submit now).line.offset = s.line.offset ↔
        ∀ c ∈ right, c.val ≤ 0x7F)) := by
  have text : s.line.text = Utf8.encode (left ++ right) := by
    rw [InputLine.text, before, after, Utf8.encode_append]
  have offset : s.line.offset = (Utf8.encode right).length := by
    rw [InputLine.offset, after]
  have atEnd (none : right = []) : cursorMotion s.line = 0 := by
    unfold cursorMotion
    rw [offset, none]
    rfl
  have exact : (s.submit now).line.offset = s.line.offset ↔ right.length = cursorMotion s.line := by
    rw [(input_submit_of_interrupted cut now).2, offset, text, InputLine.offset_move_set_eq_iff _ _ _ atEnd]
  refine ⟨?_, exact, fun short => ?_⟩
  · rw [(input_submit_of_interrupted cut now).2, InputLine.text_move, InputLine.text_set]
  · rw [exact, cursorMotion_of_offset_lt short, offset, ← Utf8.length_eq_length_encode_iff]
    exact Int.ofNat_inj

theorem line_submit_before_ascii :
    let s : Session Echo :=
      { Session.new {} {} (fun _ _ => none) (fun _ => []) {} {} with
        line := { before := bytes "sleep(", after := bytes ")" } }
    (s.submit 0).line.text = s.line.text ∧ (s.submit 0).line.offset = s.line.offset :=
  have h := line_submit_of_interrupted (by decide +kernel) 0 "sleep(".toList [')'] rfl rfl
  ⟨h.1, (h.2.2 (by decide +kernel)).2 (List.forall_mem_singleton.2 (by decide))⟩

/-- With one character of two bytes on its right, the cursor comes back three bytes from the end. -/
theorem cursor_left_of_interrupted_line :
    let s := (((Shell.start {} {} none {}).insertText (bytes "sleep(0)#aé")).handleAction .cursorLeft
      0).withPatience (.atCheck 1)
    s.submission.outcome = .interrupted ∧ s.line.offset = 2 ∧ (s.submit 1).line.offset = 3 := by
  decide +kernel

end CalcShell.Session
