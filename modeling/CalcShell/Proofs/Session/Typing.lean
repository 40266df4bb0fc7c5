import CalcShell.Proofs.Session.Submission

/-! What typing depends on: the line being edited, and what decides about the next key. Showing leaves
it alone, printable keys go to the line, and a line that is taken while text is pasted leaves an empty
one behind. -/
namespace CalcShell.Session

variable {ε : Type}

/-- The line being edited and all that the way of a key depends on. -/
structure Typing where
  config : Config
  line : InputLine
  lineSources : List LineSource
  isPasting : Bool
  lastKey : Option Int
  savePath : Option Bytes
  patience : Patience

def typing (s : Session ε) : Typing :=
  { config := s.config, line := s.line, lineSources := s.lineSources, isPasting := s.isPasting
    lastKey := s.lastKey, savePath := s.savePath, patience := s.surroundings.patience }

/-! ### Showing -/

@[simp] lemma typing_send (s : Session ε) (commands : List Draw) :
    (s.send commands).typing = s.typing := rfl

@[simp] lemma typing_draw (s : Session ε) : s.draw.typing = s.typing := rfl

@[simp] lemma typing_write (s : Session ε) (piece : Piece) : (s.write piece).typing = s.typing := rfl

@[simp] lemma typing_stream (s : Session ε) (piece : Piece) :
    (s.stream piece).typing = s.typing := by
  unfold stream
  dsimp only
  split <;> rfl

@[simp] lemma typing_listCandidates (s : Session ε) : s.listCandidates.typing = s.typing := by
  unfold listCandidates
  split <;> rfl

lemma typing_andThen {next : Session ε → Session ε} (step : ∀ s, (next s).typing = s.typing)
    (s : Session ε) : (s.andThen next).typing = s.typing := by
  unfold andThen
  split
  · rfl
  · exact step s

lemma typing_edited (s : Session ε) (line : InputLine) :
    (s.edited line).typing = { s.typing with line } := by
  unfold edited
  dsimp only
  rw [typing_draw]
  split
  · rfl
  · rw [typing_listCandidates]
    rfl

/-! ### Submitting -/

/-- A turn that nobody indents begins with an empty line. -/
lemma typing_newTurn {s : Session ε} {more : Bool} (plain : more = false ∨ s.typing.isPasting)
    (levels : Nat) :
    (s.newTurn more levels).typing = { s.typing with line := s.typing.line.clear } := by
  unfold newTurn
  dsimp only
  rw [if_neg]
  · rfl
  · intro indents
    rw [Bool.and_eq_true, Bool.and_eq_true, Bool.not_eq_true'] at indents
    rcases plain with done | pasting
    · exact Bool.false_ne_true (done.symm.trans indents.1.1)
    · exact Bool.false_ne_true (indents.2.symm.trans pasting)

lemma typing_follow (s : Session ε) (sub : Submission ε) :
    (s.follow sub).typing = { s.typing with patience := sub.patience.clear } := by
  unfold follow
  dsimp only
  split
  · rw [view_foldl typing typing_stream]
    rfl
  · rfl

lemma typing_accept {s : Session ε} {more : Bool} (plain : more = false ∨ s.typing.isPasting)
    (line : Evaluated) (sub : Submission ε) (levels : Nat) :
    (s.accept line sub more levels).typing = { s.typing with line := s.typing.line.clear } := by
  unfold accept
  dsimp only
  have shown (s : Session ε) (pieces : List Piece) : (pieces.foldl write s).typing = s.typing :=
    view_foldl typing typing_write pieces s
  rw [typing_andThen typing_draw, typing_newTurn (by rwa [shown]), shown]
  rfl

variable [Evaluator ε]

lemma typing_evaluate (s : Session ε) :
    s.evaluate.typing = { s.typing with patience := s.submission.patience.clear } := by
  unfold evaluate
  rw [typing_send, typing_follow]
  rfl

/-- After a line that was taken an empty line is edited, if nobody indents it. -/
theorem typing_submit_of_taken {s : Session ε} (calm : s.submission.outcome ≠ .interrupted)
    (stays : s.submission.outcome ≠ .exit)
    (plain : s.submission.outcome.asksMore = false ∨ s.isPasting) (now : Int) :
    (s.submit now).typing =
      { s.typing with line := s.line.clear, patience := s.submission.patience.clear } := by
  rw [submit_eq]
  cases h : s.submission.outcome with
  | exit => exact absurd h stays
  | interrupted => exact absurd h calm
  | finished more levels =>
    rw [h] at plain
    dsimp only
    rw [typing_accept (by rwa [typing_evaluate]), typing_evaluate]
    rfl
  | failed message =>
    dsimp only
    rw [typing_accept (.inl rfl), typing_evaluate]
    rfl

/-! ### Keys -/

omit [Evaluator ε] in
/-- A key that follows the last one closely is part of a paste. -/
lemma isPasting_noteKey {s : Session ε} {last now : Int} (noted : s.lastKey = some last)
    (close : s.config.isPaste (now - last)) : (s.noteKey now).isPasting = true := by
  simp [noteKey, noted, close]

variable {s : Session ε} {key : Bytes}

lemma handleKey_of_printable (running : s.isExiting = false) (unasked : s.savePath = none)
    (free : s.config.keys.lookup key = .ignore) (printable : Key.isPrintable key) (now : Int) :
    s.handleKey key now = (s.noteKey now).insertText key := by
  have noted : (s.noteKey now).savePath = none := unasked
  have same : (s.noteKey now).config.keys.lookup key = .ignore := free
  rw [handleKey, if_neg (by simp [running])]
  dsimp only
  rw [noted]
  dsimp only
  rw [same]
  exact if_pos printable

lemma handleKey_of_submit (running : s.isExiting = false) (unasked : s.savePath = none)
    (bound : s.config.keys.lookup key = .submit) (now : Int) :
    s.handleKey key now = (s.noteKey now).submit now := by
  have noted : (s.noteKey now).savePath = none := unasked
  have same : (s.noteKey now).config.keys.lookup key = .submit := bound
  rw [handleKey, if_neg (by simp [running])]
  dsimp only
  rw [noted]
  dsimp only
  rw [same]
  rfl

/-! ### Ticks -/

omit [Evaluator ε] in
lemma typing_checkSize (s : Session ε) : s.checkSize.typing = s.typing := by
  unfold checkSize
  dsimp only
  split
  · rfl
  · split
    · rfl
    · split <;> rfl

omit [Evaluator ε] in
lemma typing_checkStatus (s : Session ε) (now : Int) :
    (s.checkStatus now).typing = s.typing := by
  unfold checkStatus
  dsimp only
  split <;> rfl

omit [Evaluator ε] in
lemma typing_checkPaste (s : Session ε) (now : Int) :
    ∃ isPasting, (s.checkPaste now).typing = { s.typing with isPasting } := by
  unfold checkPaste
  split
  · refine ⟨false, ?_⟩
    rw [typing_draw, typing_listCandidates]
    rfl
  · exact ⟨s.isPasting, rfl⟩

/-- A tick that brings no lines can end the paste, and does nothing else to what is typed. -/
lemma idle_of_noSources (noSources : s.lineSources = []) (now : Int) :
    (s.idle now).core = s.core ∧
      ∃ isPasting, (s.idle now).typing = { s.typing with isPasting } := by
  rw [idle]
  split
  · exact ⟨rfl, s.isPasting, rfl⟩
  · obtain ⟨isPasting, ended⟩ := typing_checkPaste s.checkSize now
    have typed : ((s.checkSize.checkPaste now).checkStatus now).stepModules.typing =
        { s.typing with isPasting } := by
      change ((s.checkSize.checkPaste now).checkStatus now).typing = _
      rw [typing_checkStatus, ended, typing_checkSize]
    have core : ((s.checkSize.checkPaste now).checkStatus now).stepModules.core = s.core := by simp
    dsimp only
    generalize ((s.checkSize.checkPaste now).checkStatus now).stepModules = looked at typed core
    have none : looked.lineSources = [] := (congrArg Typing.lineSources typed).trans noSources
    have same : { looked with lineSources := [] } = looked := by rw [← none]
    rw [none, submitSources, same]
    exact ⟨core, isPasting, typed⟩

end CalcShell.Session
