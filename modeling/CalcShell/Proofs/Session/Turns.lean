import CalcShell.Proofs.Editing.Line
import CalcShell.Proofs.Session.Interrupt
import CalcShell.Proofs.Session.Rollback
import CalcShell.Proofs.Session.Runs
import Mathlib.Data.List.Induction
import Mathlib.Data.List.Infix

/-! What the turn of a session says about the line, the statement and the history. It is right after every event
but one that ends with an interrupted empty line behind an unfinished statement: then the session says that
nothing has been begun. -/
namespace CalcShell

/-- A completion that finds nothing to do leaves the line as it is. -/
lemma Completion.Engine.line_complete_of_notFound {engine : Engine} {sources : Sources} {line : InputLine}
    {back : Bool} : (engine.complete sources line back).1 = false →
      (engine.complete sources line back).2.1 = line := by
  unfold Engine.complete
  split
  · split
    · nofun
    · intro _
      rfl
  · split
    · nofun
    · dsimp only
      split
      · intro _
        rfl
      · nofun

/-- What the turn speaks of. -/
structure Stance where
  turn : Turn
  line : InputLine
  history : History
  buffer : List Bytes

namespace Stance

/-- The turn is right about the line and the history, and a statement that it says to go on is unfinished. -/
structure IsSettled (p : Stance) : Prop where
  settled : p.turn ≠ .submitted
  blank : p.turn = .empty → p.line.text = []
  continuing : p.turn = .continuing → p.buffer ≠ []
  browsing : p.turn = .browsing → 1 ≤ p.history.position

/-- The turn is right about the statement, too: one that is unfinished is not passed over. -/
structure IsTrue (p : Stance) : Prop extends p.IsSettled where
  alone : p.turn = .empty → p.buffer = []

variable {p : Stance}

lemma isTrue_of_editing (turn : p.turn = .editing) : p.IsTrue := by
  constructor
  · constructor <;> simp [turn]
  · simp [turn]

lemma isTrue_of_exiting (turn : p.turn = .exiting) : p.IsTrue := by
  constructor
  · constructor <;> simp [turn]
  · simp [turn]

/-- A session browses only while its history does. -/
lemma isTrue_of_browsing (turn : p.turn = if p.history.isBrowsing then .browsing else .editing) : p.IsTrue := by
  by_cases browsing : p.history.isBrowsing
  · rw [if_pos browsing] at turn
    have position : p.history.position ≠ 0 := by simpa [History.isBrowsing] using browsing
    constructor
    · constructor <;> simp [turn]
      omega
    · simp [turn]
  · rw [if_neg browsing] at turn
    exact isTrue_of_editing turn

end Stance

namespace Session
open CalcShell.Calc (Calculator)

variable {ε : Type}

def stance (s : Session ε) : Stance :=
  { turn := s.turn, line := s.line, history := s.history, buffer := s.buffer }

/-! ### Showing -/

@[simp] lemma stance_draw (s : Session ε) : s.draw.stance = s.stance := rfl

@[simp] lemma stance_write (s : Session ε) (piece : Piece) : (s.write piece).stance = s.stance := rfl

@[simp] lemma stance_showMessage (s : Session ε) (text : Bytes) (now : Int) :
    (s.showMessage text now).stance = s.stance := rfl

@[simp] lemma stance_listCandidates (s : Session ε) : s.listCandidates.stance = s.stance := by
  unfold listCandidates
  split <;> rfl

lemma stance_andThen {next : Session ε → Session ε} (step : ∀ s, (next s).stance = s.stance)
    (s : Session ε) : (s.andThen next).stance = s.stance := by
  unfold andThen
  split
  · rfl
  · exact step s

lemma stance_save (s : Session ε) (path : Bytes) (now : Int) : (s.save path now).2.stance = s.stance := by
  unfold save
  dsimp only
  split <;> rfl

lemma stance_typePath (s : Session ε) (path key : Bytes) (now : Int) :
    (s.typePath path key now).stance = s.stance := by
  unfold typePath
  split
  · split
    · rfl
    · exact stance_save _ path now
  all_goals rfl

lemma stance_checkSize (s : Session ε) : s.checkSize.stance = s.stance := by
  unfold checkSize
  dsimp only
  split
  · rfl
  · split
    · rfl
    · split <;> rfl

lemma stance_checkPaste (s : Session ε) (now : Int) : (s.checkPaste now).stance = s.stance := by
  unfold checkPaste
  split
  · rw [stance_draw, stance_listCandidates]
    rfl
  · rfl

lemma stance_checkStatus (s : Session ε) (now : Int) : (s.checkStatus now).stance = s.stance := by
  unfold checkStatus
  dsimp only
  split <;> rfl

/-! ### Turns -/

/-- A turn that goes on with a statement needs one. -/
lemma isTrue_newTurn {s : Session ε} {more : Bool} (some : more = true → s.buffer ≠ []) (levels : Nat) :
    (s.newTurn more levels).stance.IsTrue := by
  cases more with
  | false =>
    constructor
    · constructor <;> simp [newTurn, stance, InputLine.clear]
    · simp [newTurn, stance]
  | true =>
    have turn : (s.newTurn true levels).turn = .continuing := by
      unfold newTurn indent
      dsimp only
      split
      · split <;> rfl
      · rfl
    have buffer : (s.newTurn true levels).buffer = s.buffer :=
      congrArg Core.buffer (core_newTurn s true levels)
    constructor
    · constructor <;> simp [stance, turn, buffer, some]
    · simp [stance, turn]

lemma isTrue_start (s : Session ε) (banner : Bytes) : (s.start banner).stance.IsTrue := by
  unfold start
  dsimp only
  rw [stance_draw]
  exact isTrue_newTurn (by simp) 0

/-! ### Editing -/

lemma isTrue_edited (s : Session ε) (line : InputLine) : (s.edited line).stance.IsTrue := by
  have edit (isBrowsing : Bool) (only : isBrowsing = true → s.history.isBrowsing = true) :
      { s with line, turn := if isBrowsing then .browsing else .editing }.stance.IsTrue := by
    cases isBrowsing with
    | false => exact Stance.isTrue_of_editing rfl
    | true => exact Stance.isTrue_of_browsing (if_pos (only rfl)).symm
  unfold edited
  dsimp only
  rw [stance_draw]
  split
  · exact edit _ (by simp)
  · rw [stance_listCandidates]
    exact edit _ (by simp)

lemma isTrue_browse (s : Session ε) (motion : History → Bytes × History) : (s.browse motion).stance.IsTrue :=
  Stance.isTrue_of_browsing rfl

lemma stance_complete (s : Session ε) (back : Bool) :
    (s.complete back).stance = s.stance ∨ (s.complete back).stance.IsTrue := by
  unfold complete
  split
  · split
    · exact .inr (Stance.isTrue_of_editing rfl)
    · exact .inl rfl
  · dsimp only
    cases found : (s.engine.complete s.completionSources s.line back).1 with
    | true => exact .inr (Stance.isTrue_of_editing rfl)
    | false =>
      refine .inl ?_
      rw [stance_draw, stance, Completion.Engine.line_complete_of_notFound found]
      rfl

variable [Evaluator ε] {s : Session ε}

/-! ### Submitting -/

/-- An interrupt stops a line that is empty and goes on with a statement. -/
def IsCutShort (s : Session ε) : Prop :=
  s.line.text = [] ∧ s.buffer ≠ [] ∧ s.submission.outcome = .interrupted

instance (s : Session ε) : Decidable s.IsCutShort := inferInstanceAs (Decidable (_ ∧ _ ∧ _))

lemma buffer_evaluate (s : Session ε) : s.evaluate.buffer = s.buffer ++ [s.line.text] :=
  congrArg Core.buffer (core_evaluate s)

lemma isTrue_accept (line : Evaluated) (sub : Submission ε) (more : Bool) (levels : Nat) :
    (s.evaluate.accept line sub more levels).stance.IsTrue := by
  unfold accept
  dsimp only
  rw [stance_andThen stance_draw]
  refine isTrue_newTurn (fun _ => ?_) levels
  have written (t : Session ε) (pieces : List Piece) : (pieces.foldl write t).buffer = t.buffer :=
    congrArg Stance.buffer (view_foldl stance stance_write pieces t)
  rw [written]
  change s.evaluate.buffer ≠ []
  rw [buffer_evaluate]
  simp

/-- A line that was interrupted is edited again, and the statement is what it was before. -/
lemma stance_submit_of_interrupted (cut : s.submission.outcome = .interrupted) (now : Int) :
    (s.submit now).turn = (if s.line.text.isEmpty then .empty else .editing) ∧
      (s.submit now).line.text = s.line.text ∧ (s.submit now).buffer = s.buffer := by
  refine ⟨?_, ?_, congrArg Core.buffer (core_submit_of_interrupted cut now)⟩
  · rw [submit_eq, cut]
    rfl
  · rw [(input_submit_of_interrupted cut now).2, InputLine.text_move, InputLine.text_set]

lemma isTrue_submit_of_calm (calm : s.submission.outcome ≠ .interrupted) (now : Int) :
    (s.submit now).stance.IsTrue := by
  rw [submit_eq]
  cases outcome : s.submission.outcome with
  | exit => exact Stance.isTrue_of_exiting rfl
  | interrupted => exact absurd outcome calm
  | finished more levels => exact isTrue_accept s.record s.submission more levels
  | failed message => exact isTrue_accept s.record s.submission false 0

theorem isSettled_submit (s : Session ε) (now : Int) : (s.submit now).stance.IsSettled := by
  by_cases cut : s.submission.outcome = .interrupted
  · obtain ⟨turn, text, -⟩ := stance_submit_of_interrupted cut now
    by_cases blank : s.line.text.isEmpty
    · rw [if_pos blank] at turn
      have text : (s.submit now).line.text = [] := by rw [text, List.isEmpty_iff.1 blank]
      constructor <;> simp [stance, turn, text]
    · rw [if_neg blank] at turn
      exact (Stance.isTrue_of_editing turn).toIsSettled
  · exact (isTrue_submit_of_calm cut now).toIsSettled

/-- After a line the turn is true unless the line was cut short. -/
theorem isTrue_submit_iff (s : Session ε) (now : Int) : (s.submit now).stance.IsTrue ↔ ¬s.IsCutShort := by
  by_cases cut : s.submission.outcome = .interrupted
  · obtain ⟨turn, -, buffer⟩ := stance_submit_of_interrupted cut now
    by_cases blank : s.line.text.isEmpty
    · rw [if_pos blank] at turn
      constructor
      · rintro truth ⟨-, some, -⟩
        exact some (buffer.symm.trans (truth.alone turn))
      · intro whole
        refine ⟨isSettled_submit s now, fun _ => ?_⟩
        by_contra some
        exact whole ⟨List.isEmpty_iff.1 blank, fun none => some (buffer.trans none), cut⟩
    · rw [if_neg blank] at turn
      exact iff_of_true (Stance.isTrue_of_editing turn) fun short => blank (List.isEmpty_iff.2 short.1)
  · exact iff_of_true (isTrue_submit_of_calm cut now) fun short => cut short.2.2

/-! ### Actions -/

lemma stance_undo (s : Session ε) (now : Int) :
    (s.undo now).stance = s.stance ∨ (s.undo now).stance.IsTrue := by
  unfold undo
  split
  · exact .inl rfl
  · refine .inr ?_
    dsimp only
    rw [stance_andThen (fun t => by rw [stance_draw, stance_showMessage])]
    exact isTrue_newTurn (by simp [isContinuation]) _

lemma isTrue_cancel (s : Session ε) (now : Int) : (s.cancel now).stance.IsTrue := by
  unfold cancel
  dsimp only
  rw [stance_draw, stance_showMessage]
  exact isTrue_newTurn (by simp) 0

/-- An action that submits nothing leaves the stance alone, or a true turn behind. -/
lemma stance_perform {action : Action} (other : action ≠ .submit) (s : Session ε) (now : Int) :
    (s.perform action now).stance = s.stance ∨ (s.perform action now).stance.IsTrue := by
  cases action with
  | submit => exact absurd rfl other
  | ignore | clearScreen | escape | saveTranscript => exact .inl rfl
  | backspace | clearWord | clearLine | cutToBuffer | yank | cursorLeft | cursorRight | home
  | finish => exact .inr (isTrue_edited s _)
  | deleteForward =>
    unfold perform
    dsimp only
    split
    · exact .inr (Stance.isTrue_of_exiting rfl)
    · exact .inr (isTrue_edited s _)
  | historyBack | historyForward | historyFirst | historyLast => exact .inr (isTrue_browse s _)
  | complete | completeBack => exact stance_complete s _
  | undo => exact stance_undo s now
  | exit => exact .inr (Stance.isTrue_of_exiting rfl)
  | interrupt => exact .inr (isTrue_cancel s now)

/-! ### Lines of an event -/

/-- The sessions that submit some lines one after the other, each with its line. -/
def submitting (now : Int) : Session ε → List Bytes → List (Session ε)
  | _, [] => []
  | s, line :: lines =>
    if s.isOver then []
    else { s with line := s.line.set line } :: submitting now (s.submitText line now) lines

/-- The sessions that submit the lines of some sources. -/
def submittingSources (now : Int) : Session ε → List LineSource → List (Session ε)
  | _, [] => []
  | s, source :: waiting =>
    let next := s.submitLines source.take.1 now
    submitting now s source.take.1 ++ if next.isOver then [] else submittingSources now next waiting

/-- What a tick does before it asks for lines. -/
def attended (s : Session ε) (now : Int) : Session ε :=
  ((s.checkSize.checkPaste now).checkStatus now).stepModules

/-- The session itself if an action submits its line. -/
def submitsBy (s : Session ε) (action : Action) : List (Session ε) := if action = .submit then [s] else []

/-- The sessions that submit a line in the course of an event, each as it is when it does. -/
def submits (s : Session ε) (e : Event) (now : Int) : List (Session ε) :=
  if s.isExiting then []
  else
    match e with
    | .key key => (s.action? (.key key)).elim [] (s.noteKey now).submitsBy
    | .action action => s.submitsBy action
    | .line text => [{ s with line := s.line.set text }]
    | .tick => submittingSources now (s.attended now) (s.attended now).lineSources
    | .text _ | .message _ | .save _ | .resize _ _ | .source _ => []

/-- The stance that the last of some submissions leaves. -/
def stanceAfter (s : Session ε) (submits : List (Session ε)) (now : Int) : Stance :=
  (submits.getLast?.map fun last => (last.submit now).stance).getD s.stance

lemma stanceAfter_cons (s first : Session ε) (rest : List (Session ε)) (now : Int) :
    s.stanceAfter (first :: rest) now = (first.submit now).stanceAfter rest now := by
  unfold stanceAfter
  rw [List.getLast?_cons]
  cases rest.getLast? <;> rfl

lemma stanceAfter_append {s next : Session ε} {front : List (Session ε)} {now : Int}
    (comes : next.stance = s.stanceAfter front now) (back : List (Session ε)) :
    s.stanceAfter (front ++ back) now = next.stanceAfter back now := by
  unfold stanceAfter at comes ⊢
  rw [List.getLast?_append, comes]
  cases back.getLast? <;> rfl

lemma submitLines_of_isOver (ended : s.isOver = true) (lines : List Bytes) (now : Int) :
    s.submitLines lines now = s := by
  unfold submitLines
  induction lines with
  | nil => rfl
  | cons line lines ih => rw [List.foldl_cons, if_pos ended, ih]

lemma submitText_of_not_isOver (goesOn : ¬s.isOver = true) (line : Bytes) (now : Int) :
    s.submitText line now = { s with line := s.line.set line }.submit now := by
  rw [isOver, Bool.or_eq_true, not_or] at goesOn
  exact if_neg goesOn.1

lemma stance_submitLines (s : Session ε) (lines : List Bytes) (now : Int) :
    (s.submitLines lines now).stance = s.stanceAfter (submitting now s lines) now := by
  induction lines generalizing s with
  | nil => rfl
  | cons line lines ih =>
    rw [submitting]
    by_cases ended : s.isOver = true
    · rw [if_pos ended, submitLines_of_isOver ended]
      rfl
    · rw [if_neg ended]
      have next : s.submitLines (line :: lines) now = (s.submitText line now).submitLines lines now := by
        unfold submitLines
        rw [List.foldl_cons, if_neg ended]
      rw [next, ih, stanceAfter_cons, submitText_of_not_isOver ended]

lemma stance_submitSources (s : Session ε) (waiting done : List LineSource) (now : Int) :
    (submitSources now waiting done s).stance = s.stanceAfter (submittingSources now s waiting) now := by
  induction waiting generalizing s done with
  | nil => rfl
  | cons source waiting ih =>
    have lines := stance_submitLines s source.take.1 now
    rw [submittingSources, stanceAfter_append lines, submitSources]
    dsimp only
    split
    · rfl
    · exact ih _ _

lemma stance_performed (s : Session ε) (action : Action) (now : Int) :
    (s.perform action now).stance = s.stanceAfter (s.submitsBy action) now ∨
      (s.submitsBy action = [] ∧ (s.perform action now).stance.IsTrue) := by
  by_cases submit : action = .submit
  · subst submit
    exact .inl rfl
  · have none : s.submitsBy action = [] := if_neg submit
    rw [none]
    exact (stance_perform submit s now).imp id fun truth => ⟨rfl, truth⟩

omit [Evaluator ε] in
lemma stance_attended (s : Session ε) (now : Int) : (s.attended now).stance = s.stance :=
  (stance_checkStatus _ now).trans ((stance_checkPaste _ now).trans (stance_checkSize s))

lemma stance_idle (running : s.isExiting = false) (now : Int) :
    (s.idle now).stance = s.stanceAfter (s.submits .tick now) now := by
  rw [idle, submits, if_neg (by simp [running]), if_neg (by simp [running])]
  dsimp only
  rw [← attended, stance_submitSources, stanceAfter, stance_attended]
  rfl

/-- After an event the stance is that of the last line submitted in it; an event without one leaves the stance
alone, or a true turn behind. -/
lemma stance_handle {e : Event} (running : s.isExiting = false) (now : Int) :
    (s.handle e now).stance = s.stanceAfter (s.submits e now) now ∨
      (s.submits e now = [] ∧ (s.handle e now).stance.IsTrue) := by
  have runs : ¬s.isExiting = true := by simp [running]
  cases e with
  | key key =>
    change (s.handleKey key now).stance = _ ∨ (_ ∧ (s.handleKey key now).stance.IsTrue)
    rw [handleKey, submits, if_neg runs, if_neg runs]
    dsimp only
    split
    · rename_i path asks
      have asked : s.action? (.key key) = none := if_pos (congrArg Option.isSome asks)
      rw [asked]
      exact .inl (stance_typePath _ path key now)
    · rename_i unasked
      have asked : s.action? (.key key) = some (s.config.keys.lookup key) :=
        if_neg (by rw [show s.savePath = none from unasked]; exact Bool.false_ne_true)
      rw [asked, Option.elim_some]
      split
      · rename_i free
        have none : (s.noteKey now).submitsBy (s.config.keys.lookup key) = [] := by
          rw [show s.config.keys.lookup key = .ignore from free]
          rfl
        rw [none]
        split
        · exact .inr ⟨rfl, isTrue_edited _ _⟩
        · exact .inl rfl
      · exact stance_performed (s.noteKey now) _ now
  | action action =>
    change (s.handleAction action now).stance = _ ∨ (_ ∧ (s.handleAction action now).stance.IsTrue)
    rw [handleAction, submits, if_neg runs, if_neg runs]
    exact stance_performed s action now
  | text text => exact .inr ⟨by rw [submits, if_neg runs], isTrue_edited s _⟩
  | line text =>
    refine .inl ?_
    rw [submits, if_neg runs]
    change (s.submitText text now).stance = _
    rw [submitText, if_neg runs]
    rfl
  | tick => exact .inl (stance_idle running now)
  | message text | resize size isAnnounced | source source =>
    refine .inl ?_
    rw [submits, if_neg runs]
    rfl
  | save path =>
    refine .inl ?_
    rw [submits, if_neg runs]
    exact stance_save s path now

/-! ### Runs -/

/-- The sessions that submit a line in the course of what happens. Nothing is stuck any more when an event
comes. -/
def submitters (s : Session ε) : Happening → List (Session ε)
  | .event e now => { s with isStuck := false }.submits e now
  | .meanwhile .. => []

/-- The last line submitted in the course of what happens is cut short. -/
def EndsCutShort (s : Session ε) (happening : Happening) : Prop :=
  ∃ last ∈ (s.submitters happening).getLast?, last.IsCutShort

instance (s : Session ε) (happening : Happening) : Decidable (s.EndsCutShort happening) :=
  inferInstanceAs (Decidable (∃ last ∈ _, _))

lemma isTrue_stanceAfter_iff (truth : s.stance.IsTrue) (submits : List (Session ε)) (now : Int) :
    (s.stanceAfter submits now).IsTrue ↔ ¬∃ last ∈ submits.getLast?, last.IsCutShort := by
  unfold stanceAfter
  cases submits.getLast? with
  | none => exact iff_of_true truth (by simp)
  | some last => exact (isTrue_submit_iff last now).trans (by simp)

lemma isSettled_stanceAfter (settled : s.stance.IsSettled) (submits : List (Session ε)) (now : Int) :
    (s.stanceAfter submits now).IsSettled := by
  unfold stanceAfter
  cases submits.getLast? with
  | none => exact settled
  | some last => exact isSettled_submit last now

lemma submits_of_exiting (exiting : s.isExiting = true) (e : Event) (now : Int) : s.submits e now = [] :=
  if_pos exiting

lemma stance_happen (s : Session ε) (happening : Happening) :
    ∃ now, (s.happen happening).stance = s.stanceAfter (s.submitters happening) now ∨
      (s.submitters happening = [] ∧ (s.happen happening).stance.IsTrue) := by
  cases happening with
  | event e now =>
    refine ⟨now, ?_⟩
    rw [happen, submitters]
    split
    · rename_i exiting
      rw [submits_of_exiting (s := { s with isStuck := false }) exiting]
      exact .inl rfl
    · rename_i runs
      exact stance_handle (s := { s with isStuck := false }) (Bool.eq_false_iff.2 runs) now
  | meanwhile patience files lineSources redraws => exact ⟨0, .inl rfl⟩

/-- A true turn stays true unless what happens ends with a line that is cut short. -/
theorem isTrue_happen_iff (truth : s.stance.IsTrue) (happening : Happening) :
    (s.happen happening).stance.IsTrue ↔ ¬s.EndsCutShort happening := by
  rw [EndsCutShort]
  obtain ⟨now, follows | ⟨none, after⟩⟩ := stance_happen s happening
  · rw [follows]
    exact isTrue_stanceAfter_iff truth _ now
  · rw [none]
    exact iff_of_true after (by simp)

lemma isSettled_happen (settled : s.stance.IsSettled) (happening : Happening) :
    (s.happen happening).stance.IsSettled := by
  obtain ⟨now, follows | ⟨-, after⟩⟩ := stance_happen s happening
  · rw [follows]
    exact isSettled_stanceAfter settled _ now
  · exact after.toIsSettled

theorem isSettled_after (settled : s.stance.IsSettled) (run : List Happening) :
    (s.after run).stance.IsSettled := by
  induction run generalizing s with
  | nil => exact settled
  | cons happening run ih => exact ih (isSettled_happen settled happening)

/-- The turn stays true throughout a run just when nothing in the run ends with a line that is cut short. -/
theorem isTrue_after_iff (truth : s.stance.IsTrue) (run : List Happening) :
    (∀ front, front <+: run → (s.after front).stance.IsTrue) ↔
      ∀ front happening, front ++ [happening] <+: run → ¬(s.after front).EndsCutShort happening := by
  constructor
  · intro all front happening within
    have before := all front ((List.prefix_append front _).trans within)
    have after := all (front ++ [happening]) within
    rw [after_append] at after
    exact (isTrue_happen_iff before happening).1 after
  · intro whole front within
    induction front using List.reverseRecOn with
    | nil => exact truth
    | append_singleton front happening ih =>
      have before := ih ((List.prefix_append front _).trans within)
      rw [after_append]
      exact (isTrue_happen_iff before happening).2 (whole front happening within)

/-- An event of the user, of the clock or of a source of lines. -/
def Event.isTaken : Event → Bool
  | .key _ | .action _ | .line _ | .tick => true
  | .text _ | .message _ | .save _ | .resize _ _ | .source _ => false

/-- At its end a session takes no more events. -/
lemma handle_of_exiting (exiting : s.isExiting = true) {e : Event} (taken : e.isTaken) (now : Int) :
    s.handle e now = s := by
  cases e with
  | key key | action action | line text | tick => exact if_pos exiting
  | _ => cases taken

/-- The turn of a session is true after every event of a run just when no event of the run ends with an
interrupted empty line behind an unfinished statement. Whatever happens, no line is still being evaluated after
an event, an empty turn has an empty line, a turn goes on only with an unfinished statement, and only an entry of the
history is browsed; and at its end the session takes no more events, and evaluates nothing. -/
theorem turn_true_throughout_iff (s : Session ε) (banner : Bytes) (run : List Happening) :
    ((∀ front, front <+: run → ((s.start banner).after front).stance.IsTrue) ↔
        ∀ front happening, front ++ [happening] <+: run →
          ¬((s.start banner).after front).EndsCutShort happening) ∧
      ((s.start banner).after run).stance.IsSettled ∧
      (((s.start banner).after run).isExiting = true → ∀ e now, e.isTaken →
        ((s.start banner).after run).handle e now = (s.start banner).after run ∧
          ((s.start banner).after run).submits e now = []) := by
  have begins := isTrue_start s banner
  refine ⟨isTrue_after_iff begins run, isSettled_after begins.toIsSettled run, fun exiting e now taken => ?_⟩
  exact ⟨handle_of_exiting exiting taken now, submits_of_exiting exiting e now⟩

/-- A call on two lines whose second line is interrupted is edited on, and the turn says so; then the user leaves. -/
theorem turn_true_throughout_interrupted_call :
    let s : Session Calculator := (Shell.session {} {} {}).start []
    let run : List Happening := [.event (.line (bytes "sleep(")) 0, .meanwhile (.atCheck 1) .empty [] true,
      .event (.line (bytes "0)")) 1, .event (.action .exit) 2]
    (∀ front, front <+: run → (s.after front).stance.IsTrue) ∧
      (s.after run).stance.IsSettled ∧ (s.after run).handle .tick 3 = s.after run := by
  intro s run
  obtain ⟨iff, settled, ended⟩ := turn_true_throughout_iff (Shell.session {} {} {}) [] run
  have whole : ∀ front ∈ run.inits, ∀ happening ∈ run[front.length]?,
      ¬(s.after front).EndsCutShort happening := by
    decide +kernel
  refine ⟨iff.2 fun front happening within => ?_, settled, (ended (by decide +kernel) .tick 3 rfl).1⟩
  have isFront := (List.prefix_append front _).trans within
  apply whole front ((List.mem_inits _ _).2 isFront)
  obtain ⟨back, all⟩ := within
  rw [← all]
  simp

/-- An empty line ends a call that a backslash goes on with, and the call is interrupted: the turn is empty, and the
statement is still unfinished. -/
theorem interrupted_empty_line_hides_statement :
    let s : Session Calculator := (Shell.session {} {} {}).start []
    let call := bytes "sleep(0)\\"
    let run : List Happening := [.event (.line call) 0, .meanwhile (.atCheck 1) .empty [] true,
      .event (.line []) 1]
    (s.after run).turn = .empty ∧ (s.after run).buffer = [call] ∧ ¬(s.after run).stance.IsTrue := by
  intro s call run
  have turn : (s.after run).turn = .empty := by decide +kernel
  have unfinished : (s.after run).buffer = [call] := by decide +kernel
  refine ⟨turn, unfinished, fun truth => ?_⟩
  have none : (s.after run).buffer = [] := truth.alone turn
  exact List.cons_ne_nil _ _ (unfinished.symm.trans none)

end Session
end CalcShell
