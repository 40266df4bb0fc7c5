import CalcShell.Proofs.Screen.Inputs
import CalcShell.Proofs.Session.Submission

/-! What a session writes: a line that is submitted stands at the end of the transcript with what was
written meanwhile below it, an interrupt or taking lines back rewinds the transcript, and all else
leaves it alone. -/
namespace CalcShell.Session

variable {ε : Type}

def page (s : Session ε) : Page := s.renderer.page

def transcript (s : Session ε) : Transcript := s.renderer.transcript

/-! ### Showing -/

@[simp] lemma page_send (s : Session ε) (commands : List Draw) :
    (s.send commands).page = s.page := rfl

@[simp] lemma page_draw (s : Session ε) : s.draw.page = s.page :=
  Renderer.page_render s.renderer s.frame

@[simp] lemma page_setStatus (s : Session ε) (text : Bytes) :
    (s.setStatus text).page = s.page := Renderer.page_setStatus s.renderer text

@[simp] lemma page_showMessage (s : Session ε) (text : Bytes) (now : Int) :
    (s.showMessage text now).page = s.page := page_setStatus _ _

@[simp] lemma page_listCandidates (s : Session ε) : s.listCandidates.page = s.page := by
  unfold listCandidates
  split <;> rfl

lemma page_andThen {next : Session ε → Session ε} (step : ∀ s, (next s).page = s.page)
    (s : Session ε) : (s.andThen next).page = s.page := by
  unfold andThen
  split
  · rfl
  · exact step s

/-- The lines that some pieces of text make. -/
def written (pieces : List Piece) : List TranscriptLine :=
  pieces.flatMap fun piece => Transcript.outputLines piece.text piece.isError

lemma source_of_mem_written {pieces : List Piece} {line : TranscriptLine}
    (mem : line ∈ written pieces) : line.source = none := by
  obtain ⟨piece, -, mem⟩ := List.mem_flatMap.1 mem
  obtain ⟨row, -, rfl⟩ := List.mem_map.1 mem
  rfl

lemma page_write (s : Session ε) (piece : Piece) :
    (s.write piece).page = s.page.add (written [piece]) := by
  rw [written, List.flatMap_singleton]
  rfl

lemma page_stream (s : Session ε) (piece : Piece) :
    (s.stream piece).page = s.page.add (written [piece]) := by
  unfold stream
  dsimp only
  split
  · rw [page_send]
    exact (Renderer.page_render _ _).trans (page_write s piece)
  · exact page_write s piece

lemma page_foldl {f : Session ε → Piece → Session ε}
    (step : ∀ s piece, (f s piece).page = s.page.add (written [piece])) (pieces : List Piece)
    (s : Session ε) : (pieces.foldl f s).page = s.page.add (written pieces) := by
  induction pieces generalizing s with
  | nil => rfl
  | cons piece pieces ih =>
    rw [List.foldl_cons, ih, step, Page.add_add]
    simp [written]

/-! ### Turns -/

@[simp] lemma page_indent (s : Session ε) (levels : Nat) : (s.indent levels).page = s.page := by
  unfold indent
  split <;> rfl

lemma page_newTurn (s : Session ε) (more : Bool) (levels : Nat) :
    (s.newTurn more levels).page = s.page.turn more := by
  unfold newTurn
  dsimp only
  split
  · rw [page_indent]
    rfl
  · rfl

/-- A session begins below its banner. -/
lemma page_start (s : Session ε) (banner : Bytes) : (s.start banner).page =
    (s.page.add (written [{ text := banner }])).turn false := by
  unfold start
  dsimp only
  rw [page_draw, page_newTurn, page_setStatus]
  split
  · rename_i empty
    rw [List.isEmpty_iff.1 empty]
    exact congrArg (Page.turn · false) (Renderer.page_setGeometry s.renderer _)
  · rw [page_write]
    change ((s.renderer.setGeometry s.surroundings.size).page.add _).turn false = _
    rw [Renderer.page_setGeometry]
    rfl

/-! ### Editing, saving and ticks -/

@[simp] lemma page_edited (s : Session ε) (line : InputLine) : (s.edited line).page = s.page := by
  unfold edited
  dsimp only
  rw [page_draw]
  split
  · rfl
  · rw [page_listCandidates]
    rfl

@[simp] lemma page_browse (s : Session ε) (motion : History → Bytes × History) :
    (s.browse motion).page = s.page := by
  unfold browse
  dsimp only
  rw [page_draw]
  rfl

@[simp] lemma page_complete (s : Session ε) (back : Bool) : (s.complete back).page = s.page := by
  unfold complete
  split
  · split
    · rw [page_draw]
      rfl
    · rfl
  · dsimp only
    rw [page_draw]
    rfl

@[simp] lemma page_save (s : Session ε) (path : Bytes) (now : Int) :
    (s.save path now).2.page = s.page := by
  unfold save
  dsimp only
  split
  · dsimp only
    rw [page_draw, page_showMessage]
    rfl
  · dsimp only
    rw [page_draw, page_showMessage]

lemma page_askPath (s : Session ε) (path : Bytes) : (s.askPath path).page = s.page := by
  unfold askPath
  rw [page_draw, page_setStatus]
  rfl

lemma page_dropPath (s : Session ε) (now : Int) : (s.dropPath now).page = s.page := by
  unfold dropPath
  rw [page_draw, page_showMessage]
  rfl

@[simp] lemma page_typePath (s : Session ε) (path key : Bytes) (now : Int) :
    (s.typePath path key now).page = s.page := by
  unfold typePath
  split
  · split
    · exact page_dropPath s now
    · exact page_save _ path now
  · exact page_dropPath s now
  · exact page_dropPath s now
  all_goals exact page_askPath s _

@[simp] lemma page_checkSize (s : Session ε) : s.checkSize.page = s.page := by
  unfold checkSize
  dsimp only
  split
  · rfl
  · split
    · rfl
    · split
      · rfl
      · rw [page_draw]
        exact Renderer.page_setGeometry _ _

@[simp] lemma page_checkPaste (s : Session ε) (now : Int) : (s.checkPaste now).page = s.page := by
  unfold checkPaste
  split
  · rw [page_draw, page_listCandidates]
    rfl
  · rfl

@[simp] lemma page_checkStatus (s : Session ε) (now : Int) :
    (s.checkStatus now).page = s.page := by
  unfold checkStatus
  dsimp only
  split
  · rw [page_draw, page_setStatus]
    rfl
  · rfl

@[simp] lemma page_stepModules (s : Session ε) : s.stepModules.page = s.page := rfl

/-! ### Submitting -/

/-- The line being edited, as it stands in the transcript when it is submitted. -/
def inputLine (s : Session ε) : TranscriptLine :=
  { styled := Renderer.prompt s.isContinuation :: s.renderer.highlight s.line.text
    source := some s.line.text, promptWidth := Renderer.promptWidth s.isContinuation }

lemma isInput_inputLine (s : Session ε) : s.inputLine.IsInput s.line.text :=
  ⟨rfl, _, congrArg _ (s.renderer.plain_highlight s.line.text), rfl⟩

/-- What cancelling adds to the transcript. -/
def cancelled (s : Session ε) : List TranscriptLine :=
  s.inputLine :: Transcript.outputLines (bytes "KeyboardInterrupt") true

lemma isEntry_cancelled (s : Session ε) : IsEntry s.line.text s.cancelled := by
  refine ⟨s.isInput_inputLine, fun line mem => ?_⟩
  obtain ⟨row, -, rfl⟩ := List.mem_map.1 mem
  rfl

lemma page_commit (s : Session ε) : s.commit.page = s.page.add [s.inputLine] := by
  unfold commit
  dsimp only
  rw [page_draw]
  rfl

/-- What is shown at once of what an evaluation writes. -/
def shown (streams : Bool) (sub : Submission ε) : List TranscriptLine :=
  if streams then written sub.pieces else []

lemma source_of_mem_shown {streams : Bool} {sub : Submission ε} {line : TranscriptLine}
    (mem : line ∈ shown streams sub) : line.source = none := by
  unfold shown at mem
  split at mem
  · exact source_of_mem_written mem
  · cases mem

lemma page_follow (s : Session ε) (sub : Submission ε) :
    (s.follow sub).page = s.page.add (shown s.streams sub) := by
  unfold follow shown
  dsimp only
  split
  · exact page_foldl page_stream sub.pieces _
  · rfl

lemma page_accept (s : Session ε) (line : Evaluated) (sub : Submission ε) (more : Bool)
    (levels : Nat) : (s.accept line sub more levels).page =
      (s.page.add (written (unseen s.streams sub))).turn more := by
  unfold accept
  dsimp only
  rw [page_andThen page_draw, page_newTurn, page_foldl page_write]
  rfl

lemma page_editAgain (s before : Session ε) (now : Int) : (s.editAgain before now).page =
    (s.page.rewind before.transcript.mark).turn before.isContinuation := by
  unfold editAgain
  dsimp only
  rw [page_draw, page_showMessage]
  change ((s.renderer.rewind before.transcript.mark).beginInput before.isContinuation).page = _
  rw [page, ← Renderer.page_rewind]
  rfl

variable [Evaluator ε]

lemma page_evaluate (s : Session ε) :
    s.evaluate.page = s.page.add (s.inputLine :: shown s.streams s.submission) := by
  unfold evaluate
  rw [page_send, page_follow, page_send, page_commit, Page.add_add]
  rfl

/-- What a line adds to the transcript when it is taken. -/
def added (s : Session ε) : List TranscriptLine :=
  s.inputLine :: shown s.streams s.submission ++ written (unseen s.streams s.submission)

lemma streams_evaluate (s : Session ε) : s.evaluate.streams = s.streams := by
  unfold evaluate follow
  dsimp only
  split
  · refine (view_foldl streams (fun s piece => ?_) _ _).trans rfl
    unfold stream
    dsimp only
    split <;> rfl
  · rfl

theorem page_submit_of_taken {s : Session ε} (calm : s.submission.outcome ≠ .interrupted)
    (stays : s.submission.outcome ≠ .exit) (now : Int) :
    (s.submit now).page = (s.page.add s.added).turn s.submission.outcome.asksMore := by
  rw [submit_eq]
  unfold added
  cases h : s.submission.outcome with
  | exit => exact absurd h stays
  | interrupted => exact absurd h calm
  | finished more levels =>
    dsimp only
    rw [page_accept, page_evaluate, streams_evaluate, Page.add_add]
    rfl
  | failed message =>
    dsimp only
    rw [page_accept, page_evaluate, streams_evaluate, Page.add_add]
    rfl

theorem page_submit_of_interrupted {s : Session ε} (cut : s.submission.outcome = .interrupted)
    (now : Int) : (s.submit now).page =
      ((s.page.add (s.inputLine :: shown s.streams s.submission)).rewind
        s.transcript.mark).turn s.isContinuation := by
  rw [submit_eq, cut]
  dsimp only
  rw [page_editAgain, page_evaluate]

lemma page_submit_of_exit {s : Session ε} (exit : s.submission.outcome = .exit) (now : Int) :
    (s.submit now).page = s.page.add (s.inputLine :: shown s.streams s.submission) := by
  rw [submit_eq, exit]
  exact page_evaluate s

/-- A line that is submitted stands in the transcript with its output. -/
theorem page_submit (s : Session ε) (now : Int) : ∃ lines, IsEntry s.line.text lines ∧
    (s.submit now).page = s.page.take lines s.isContinuation s.submission.outcome := by
  have entry : IsEntry s.line.text (s.inputLine :: shown s.streams s.submission) :=
    ⟨s.isInput_inputLine, fun _ => source_of_mem_shown⟩
  by_cases exit : s.submission.outcome = .exit
  · exact ⟨_, entry, by rw [page_submit_of_exit exit, exit]; rfl⟩
  · by_cases cut : s.submission.outcome = .interrupted
    · exact ⟨_, entry, by rw [page_submit_of_interrupted cut, cut]; rfl⟩
    · refine ⟨s.added, ⟨s.isInput_inputLine, fun line mem => ?_⟩, ?_⟩
      · rcases List.mem_append.1 mem with early | late
        · exact source_of_mem_shown early
        · exact source_of_mem_written late
      · rw [page_submit_of_taken cut exit, Page.take_of_taken cut exit]

/-- Unless it is interrupted, a line only adds to the transcript. -/
lemma extends_submit {s : Session ε} (calm : s.submission.outcome ≠ .interrupted) (now : Int) :
    s.transcript.Extends (s.submit now).transcript := by
  by_cases exit : s.submission.outcome = .exit
  · exact ⟨_, congrArg Page.transcript (page_submit_of_exit exit now)⟩
  · exact ⟨_, congrArg Page.transcript (page_submit_of_taken calm exit now)⟩

/-! ### Taking back -/

theorem page_undo {s : Session ε} {line : Evaluated} (last : s.evaluated.getLast? = some line)
    (now : Int) : (s.undo now).page =
      (s.page.rewind line.mark).turn (!(s.replayed 1).buffer.isEmpty) := by
  have texts : s.evaluated.dropLast.map (·.text) = s.earlier 1 := by
    rw [earlier, List.dropLast_eq_take]
  unfold undo
  rw [last]
  dsimp only
  rw [page_andThen (fun s => by rw [page_draw, page_showMessage]), page_newTurn]
  change (s.renderer.rewind line.mark).page.turn (!((s.evaluated.dropLast.map (·.text)).foldl
    (Replay.feed s.surroundings.env) s.replayStart).buffer.isEmpty) = _
  rw [Renderer.page_rewind, texts]
  rfl

lemma transcript_undo {s : Session ε} {line : Evaluated} (last : s.evaluated.getLast? = some line)
    (now : Int) : (s.undo now).transcript = (s.renderer.rewind line.mark).transcript := by
  refine (congrArg Page.transcript (page_undo last now)).trans ?_
  rw [page, ← Renderer.page_rewind]
  rfl

lemma page_undo_nil {s : Session ε} (none : s.evaluated = []) (now : Int) :
    (s.undo now).page = s.page := by
  unfold undo
  rw [none]
  dsimp only [List.getLast?_nil]
  rw [page_draw, page_showMessage]

lemma page_forget (s : Session ε) (n : Nat) : (s.forget n).page = s.page := by
  unfold forget
  split <;> rfl

theorem page_cancel (s : Session ε) (now : Int) :
    (s.cancel now).page = (s.page.add s.cancelled).turn false := by
  unfold cancel
  dsimp only
  rw [page_draw, page_showMessage, page_newTurn, page_forget, page_write]
  change ((s.page.add [s.inputLine]).add _).turn false = _
  rw [Page.add_add]
  simp [written, cancelled]

end CalcShell.Session
