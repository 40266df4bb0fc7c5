import CalcShell.Session.Events
import Mathlib.Tactic.Lemma

/-! Drawing, editing and messages leave the core of a session alone: the evaluator, the environment,
the unfinished statement and the evaluated lines. -/
namespace CalcShell.Session

variable {ε : Type}

/-- What evaluation depends on, and whether the session is at its end. -/
structure Core (ε : Type) where
  evaluator : ε
  env : Environment
  buffer : List Bytes
  evaluated : List Evaluated
  isExiting : Bool

def core (s : Session ε) : Core ε :=
  { evaluator := s.evaluator, env := s.surroundings.env, buffer := s.buffer
    evaluated := s.evaluated, isExiting := s.isExiting }

/-! ### Showing -/

@[simp] lemma core_send (s : Session ε) (commands : List Draw) :
    (s.send commands).core = s.core := rfl

@[simp] lemma core_draw (s : Session ε) : s.draw.core = s.core := rfl

@[simp] lemma core_write (s : Session ε) (piece : Piece) : (s.write piece).core = s.core := rfl

@[simp] lemma core_stream (s : Session ε) (piece : Piece) : (s.stream piece).core = s.core := by
  unfold stream
  dsimp only
  split <;> rfl

@[simp] lemma core_setStatus (s : Session ε) (text : Bytes) :
    (s.setStatus text).core = s.core := rfl

@[simp] lemma core_showMessage (s : Session ε) (text : Bytes) (now : Int) :
    (s.showMessage text now).core = s.core := rfl

@[simp] lemma core_listCandidates (s : Session ε) : s.listCandidates.core = s.core := by
  unfold listCandidates
  split <;> rfl

/-- What every step leaves alone, many steps leave alone. -/
lemma view_foldl {α β : Type} {f : Session ε → α → Session ε} (view : Session ε → β)
    (step : ∀ s a, view (f s a) = view s) (as : List α) (s : Session ε) :
    view (as.foldl f s) = view s := by
  induction as generalizing s with
  | nil => rfl
  | cons a as ih => rw [List.foldl_cons, ih, step]

lemma core_andThen {next : Session ε → Session ε} (step : ∀ s, (next s).core = s.core)
    (s : Session ε) : (s.andThen next).core = s.core := by
  unfold andThen
  split
  · rfl
  · exact step s

/-! ### Turns -/

@[simp] lemma core_indent (s : Session ε) (levels : Nat) : (s.indent levels).core = s.core := by
  unfold indent
  split <;> rfl

/-- A new statement drops the lines of the last one. -/
@[simp] lemma core_newTurn (s : Session ε) (more : Bool) (levels : Nat) :
    (s.newTurn more levels).core =
      { s.core with buffer := if more then s.core.buffer else [], isExiting := false } := by
  unfold newTurn
  dsimp only
  split
  · rw [core_indent]
    cases more <;> rfl
  · cases more <;> rfl

lemma core_start (s : Session ε) (banner : Bytes) :
    (s.start banner).core = { s.core with buffer := [], isExiting := false } := by
  unfold start
  dsimp only
  rw [core_draw, core_newTurn, core_setStatus]
  split <;> rfl

/-! ### Editing -/

/-- Between sessions that run, the turn makes no difference. -/
lemma core_eq_of_running {s s' : Session ε} (running : s.isExiting = false)
    (running' : s'.isExiting = false) (evaluator : s'.evaluator = s.evaluator)
    (env : s'.surroundings.env = s.surroundings.env) (buffer : s'.buffer = s.buffer)
    (evaluated : s'.evaluated = s.evaluated) : s'.core = s.core := by
  simp only [core, running, running', evaluator, env, buffer, evaluated]

lemma edits_ne_exiting (isBrowsing : Bool) :
    ((if isBrowsing then Turn.browsing else Turn.editing) == Turn.exiting) = false := by
  cases isBrowsing <;> rfl

lemma core_edited {s : Session ε} (running : s.isExiting = false) (line : InputLine) :
    (s.edited line).core = s.core := by
  unfold edited
  dsimp only
  have turned (isBrowsing : Bool) :
      { s with line, turn := if isBrowsing then .browsing else .editing }.core = s.core :=
    core_eq_of_running running (edits_ne_exiting isBrowsing) rfl rfl rfl rfl
  rw [core_draw]
  split
  · exact turned _
  · rw [core_listCandidates]
    exact turned _

lemma core_browse {s : Session ε} (running : s.isExiting = false)
    (motion : History → Bytes × History) : (s.browse motion).core = s.core := by
  unfold browse
  dsimp only
  rw [core_draw]
  exact core_eq_of_running running (edits_ne_exiting _) rfl rfl rfl rfl

lemma core_complete {s : Session ε} (running : s.isExiting = false) (back : Bool) :
    (s.complete back).core = s.core := by
  unfold complete
  split
  · split
    · rw [core_draw]
      exact core_eq_of_running running rfl rfl rfl rfl rfl
    · rfl
  · dsimp only
    rw [core_draw]
    refine core_eq_of_running running ?_ rfl rfl rfl rfl
    dsimp only [isExiting]
    split
    · rfl
    · exact running

/-! ### Saving -/

@[simp] lemma core_save (s : Session ε) (path : Bytes) (now : Int) :
    (s.save path now).2.core = s.core := by
  unfold save
  dsimp only
  split <;> rfl

lemma core_typePath (s : Session ε) (path key : Bytes) (now : Int) :
    (s.typePath path key now).core = s.core := by
  unfold typePath
  split
  · split
    · rfl
    · exact core_save _ path now
  all_goals rfl

/-! ### Ticks -/

@[simp] lemma core_checkSize (s : Session ε) : s.checkSize.core = s.core := by
  unfold checkSize
  dsimp only
  split
  · rfl
  · split
    · rfl
    · split <;> rfl

@[simp] lemma core_checkPaste (s : Session ε) (now : Int) : (s.checkPaste now).core = s.core := by
  unfold checkPaste
  split
  · rw [core_draw, core_listCandidates]
    rfl
  · rfl

@[simp] lemma core_checkStatus (s : Session ε) (now : Int) :
    (s.checkStatus now).core = s.core := by
  unfold checkStatus
  dsimp only
  split <;> rfl

@[simp] lemma core_stepModules (s : Session ε) : s.stepModules.core = s.core := rfl

end CalcShell.Session
