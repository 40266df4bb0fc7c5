import CalcShell.Proofs.Session.Frame

/-! What submitting a line, taking lines back and giving a statement up make of the core of a
session. -/
namespace CalcShell.Session

variable {ε : Type}

/-! ### Submitting -/

/-- The core after a line was submitted, by what came of the line. -/
def Core.take (c : Core ε) (line : Evaluated) (sub : Submission ε) : Core ε :=
  match sub.outcome with
  | .exit => { c with evaluator := sub.next, buffer := c.buffer ++ [line.text], isExiting := true }
  | .interrupted => { c with evaluator := sub.next, isExiting := false }
  | outcome =>
    { c with
      evaluator := sub.next
      buffer := if outcome.asksMore then c.buffer ++ [line.text] else []
      evaluated := c.evaluated ++ [line]
      isExiting := false }

lemma Core.take_of_taken (c : Core ε) (line : Evaluated) {sub : Submission ε}
    (calm : sub.outcome ≠ .interrupted) (stays : sub.outcome ≠ .exit) :
    c.take line sub =
      { c with
        evaluator := sub.next
        buffer := if sub.outcome.asksMore then c.buffer ++ [line.text] else []
        evaluated := c.evaluated ++ [line]
        isExiting := false } := by
  unfold Core.take
  split
  · contradiction
  · contradiction
  · rfl

/-- The line being edited, as it is recorded when the evaluator has taken it. -/
def record (s : Session ε) : Evaluated :=
  { text := s.line.text, mark := s.renderer.transcript.mark }

lemma core_follow (s : Session ε) (sub : Submission ε) :
    (s.follow sub).core = { s.core with evaluator := sub.next } := by
  unfold follow
  dsimp only
  split
  · rw [view_foldl core core_stream]
    rfl
  · rfl

lemma core_accept (s : Session ε) (line : Evaluated) (sub : Submission ε) (more : Bool)
    (levels : Nat) : (s.accept line sub more levels).core =
      { s.core with
        buffer := if more then s.core.buffer else [], evaluated := s.core.evaluated ++ [line]
        isExiting := false } := by
  unfold accept
  dsimp only
  rw [core_andThen core_draw, core_newTurn, view_foldl core core_write]
  rfl

lemma core_editAgain (s before : Session ε) (now : Int) : (s.editAgain before now).core =
    { s.core with buffer := s.core.buffer.dropLast, isExiting := false } := by
  unfold editAgain
  dsimp only
  rw [core_draw, core_showMessage]
  cases before.line.text.isEmpty <;> rfl

variable [Evaluator ε]

def Core.submit (c : Core ε) (patience : Patience) (text : Bytes) : Submission ε :=
  Evaluator.submit c.evaluator c.env patience text

/-- What comes of the line being edited. -/
def submission (s : Session ε) : Submission ε :=
  s.core.submit s.surroundings.patience.clear s.line.text

/-- The session when the line was evaluated and nothing is decided about it. -/
def evaluate (s : Session ε) : Session ε :=
  ((s.commit.send [.suspend true]).follow s.submission).send [.suspend false]

lemma submit_eq (s : Session ε) (now : Int) : s.submit now =
    match s.submission.outcome with
    | .exit => { s.evaluate with turn := .exiting }
    | .interrupted => s.evaluate.editAgain s now
    | .finished more levels => s.evaluate.accept s.record s.submission more levels
    | .failed _ => s.evaluate.accept s.record s.submission false 0 := rfl

@[simp] lemma core_evaluate (s : Session ε) : s.evaluate.core =
    { s.core with
      evaluator := s.submission.next, buffer := s.core.buffer ++ [s.line.text]
      isExiting := false } := by
  unfold evaluate
  rw [core_send, core_follow]
  rfl

theorem core_submit (s : Session ε) (now : Int) :
    (s.submit now).core = s.core.take s.record s.submission := by
  rw [submit_eq]
  unfold Core.take
  cases h : s.submission.outcome with
  | exit =>
    have core := core_evaluate s
    simp only [Session.core, Core.mk.injEq] at core ⊢
    exact ⟨core.1, core.2.1, core.2.2.1, core.2.2.2.1, rfl⟩
  | interrupted => simp only [core_editAgain, core_evaluate, List.dropLast_concat]
  | finished more levels =>
    simp only [core_accept, core_evaluate]
    rfl
  | failed message =>
    simp only [core_accept, core_evaluate]
    rfl

/-! ### Taking back -/

/-- The texts of the evaluated lines but the last `n`. -/
def earlier (s : Session ε) (n : Nat) : List Bytes :=
  (s.evaluated.take (s.evaluated.length - n)).map (·.text)

/-- A replay before its first line. -/
def Replay.start (evaluator : ε) (patience : Patience) : Replay ε :=
  { evaluator := Evaluator.reset evaluator, patience }

def replayStart (s : Session ε) : Replay ε := .start s.evaluator s.surroundings.patience

/-- The replay that takes the last `n` lines back. -/
def replayed (s : Session ε) (n : Nat) : Replay ε :=
  (s.earlier n).foldl (Replay.feed s.surroundings.env) s.replayStart

/-- The core after the last `n` lines were taken back. -/
def Core.back (c : Core ε) (n : Nat) (r : Replay ε) : Core ε :=
  { c with
    evaluator := r.evaluator, buffer := r.buffer, evaluated := c.evaluated.take (c.evaluated.length - n)
    isExiting := false }

lemma core_undo_nil {s : Session ε} (h : s.evaluated = []) (now : Int) :
    (s.undo now).core = s.core := by
  unfold undo
  simp only [h, List.getLast?_nil]
  rfl

theorem core_undo {s : Session ε} (h : s.evaluated ≠ []) (now : Int) :
    (s.undo now).core = s.core.back 1 (s.replayed 1) := by
  have texts : s.evaluated.dropLast.map (·.text) = s.earlier 1 := by
    rw [earlier, List.dropLast_eq_take]
  unfold undo
  rw [List.getLast?_eq_some_getLast h]
  dsimp only
  rw [core_andThen (fun s => by rw [core_draw, core_showMessage]), core_newTurn]
  simp only [replay, isContinuation, core, texts]
  rw [← Replay.start, ← replayStart, ← replayed, List.dropLast_eq_take]
  generalize s.replayed 1 = r
  unfold Core.back
  cases r.buffer <;> rfl

lemma core_forget {s : Session ε} {n : Nat} (h : 0 < n) : (s.forget n).core =
    { s.core.back n (s.replayed n) with isExiting := s.isExiting } := by
  unfold forget
  rw [if_neg (Nat.ne_of_gt h)]
  rfl

theorem core_cancel_nil {s : Session ε} (h : s.buffer = []) (now : Int) :
    (s.cancel now).core = { s.core with isExiting := false } := by
  unfold cancel
  dsimp only
  rw [core_draw, core_showMessage, core_newTurn, h]
  simp only [core, h]
  rfl

theorem core_cancel {s : Session ε} (h : s.buffer ≠ []) (now : Int) :
    (s.cancel now).core =
      { s.core.back s.buffer.length (s.replayed s.buffer.length) with buffer := [] } := by
  unfold cancel
  dsimp only
  rw [core_draw, core_showMessage, core_newTurn, core_forget (List.length_pos_iff.2 h)]
  rfl

end CalcShell.Session
