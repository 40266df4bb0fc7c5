import CalcShell.Program.Shell
import CalcShell.Proofs.Session.Faithful
import CalcShell.Proofs.Session.Statement

/-! The renderer knows where the unfinished statement stands, and marks the brackets that are closed on
a later line of it, until an undo goes back into a statement that it has left behind. -/
namespace CalcShell.Session
open CalcShell.Calc (Calculator)

section

variable {ε : Type}

/-- The evaluated lines of the unfinished statement. -/
def unfinished (s : Session ε) : List Evaluated := s.core.unfinished

/-- Those of some lines that the transcript still has. -/
def kept (s : Session ε) (lines : List Evaluated) : List Evaluated :=
  lines.filter (s.transcript.first ≤ ·.mark)

/-- From the start of the statement on, the input lines of the transcript are those of the unfinished
statement, as far as the transcript still has them. -/
def Located (s : Session ε) : Prop := s.page.statement = s.kept s.unfinished

/-- A bracket that is closed left of the cursor is marked on the earlier line of the statement where it
stands, and looks marked there. -/
def MarksOpenings (s : Session ε) : Prop :=
  ∀ (opening close : UInt8) (left front back : Bytes) (earlier later : List Evaluated)
    (line : Evaluated), Renderer.openingFor? close = some opening → s.line.before = left ++ [close] →
    s.unfinished = earlier ++ line :: later → line.text = front ++ opening :: back →
    Renderer.Balanced opening close (back ++ later.flatMap (·.text) ++ left) →
    s.transcript.first ≤ line.mark →
    ∃ shown, s.transcript.line? line.mark = some shown ∧ shown.source = some line.text ∧
      s.draw.renderer.paren = some
        { line := line.mark, column := shown.promptWidth + front.length, plain := shown.styled } ∧
      (Renderer.withMark s.draw.renderer.paren line.mark shown.styled).look =
        shown.styled.look.set (shown.promptWidth + front.length)
          { byte := opening, style := .paren, bold := true }

/-- Lines that were evaluated in this order are kept from some line on. -/
lemma kept_of_kept {s : Session ε} (traced : s.core.Traced s.page) {earlier later : List Evaluated}
    {line : Evaluated} (statement : s.unfinished = earlier ++ line :: later)
    (isKept : s.transcript.first ≤ line.mark) :
    s.kept s.unfinished = s.kept earlier ++ line :: later := by
  have marks : s.unfinished.Pairwise (·.mark < ·.mark) :=
    traced.marks.sublist (List.drop_sublist _ _)
  rw [statement, List.pairwise_append, List.pairwise_cons] at marks
  rw [statement, kept, List.filter_append, List.filter_cons_of_pos (by simpa using isKept)]
  congr 2
  refine List.filter_eq_self.2 fun late mem => ?_
  rw [decide_eq_true_eq]
  exact Nat.le_trans isKept (Nat.le_of_lt (marks.2.1.1 late mem))

lemma take_index (line : InputLine) : line.text.take line.index = line.before :=
  List.take_left

theorem marksOpenings_of_located {s : Session ε} (located : s.Located)
    (traced : s.core.Traced s.page) (usable : s.renderer.geometry.isDegenerate = false)
    (active : s.frame.isActive = true) (typed : s.isPasting = false) : s.MarksOpenings := by
  intro opening close left front back earlier later line closes atCursor statement text paired isKept
  have lines : ({ s.renderer with lastFrame := s.frame } : Renderer).page.statement =
      s.kept earlier ++ line :: later := by
    rw [← kept_of_kept traced statement isKept]
    exact located
  have cursor : s.frame.text.take s.frame.cursor = left ++ [close] :=
    (take_index s.line).trans atCursor
  obtain ⟨shown, there, source, found⟩ := Renderer.matchParen_of_opening closes cursor lines text
    paired (Renderer.prompt s.frame.isContinuation :: s.renderer.highlight s.frame.text)
  have there : s.transcript.line? line.mark = some shown := there
  have paren : s.draw.renderer.paren = some
      { line := line.mark, column := shown.promptWidth + front.length, plain := shown.styled } := by
    refine (Renderer.paren_render usable active typed).trans ?_
    rw [found]
  refine ⟨shown, there, source, paren, ?_⟩
  have isInput : shown.IsInput line.text := by
    refine traced.readable shown ?_ line.text source
    rw [Transcript.line?] at there
    split at there
    · cases there
    · exact List.mem_of_getElem? (Array.getElem?_toList.trans there)
  rw [paren]
  exact Renderer.look_withMark isInput text

/-- A session before its start, in which nothing has been evaluated or written yet. -/
structure IsUnused (s : Session ε) : Prop where
  evaluated : s.evaluated = []
  transcript : s.transcript = {}

lemma IsUnused.placed_start {s : Session ε} (unused : s.IsUnused) (banner : Bytes) :
    (s.start banner).core.Placed (s.start banner).page := by
  have none : (s.start banner).core.buffer = [] := congrArg Core.buffer (core_start s banner)
  have evaluated : (s.start banner).core.evaluated = [] :=
    (congrArg Core.evaluated (core_start s banner)).trans unused.evaluated
  have blank : s.page.transcript = {} := unused.transcript
  rw [page_start]
  refine ⟨Core.located_turn_false none _, ?_, ?_, ?_, Nat.le_refl _, ?_⟩
  · rw [Core.unfinished_of_nil none, none]
    rfl
  · rw [evaluated]
    exact List.Pairwise.nil
  · rw [evaluated]
    exact nofun
  · have empty : ({} : Transcript).IsReadable := fun _ mem => by cases mem
    rw [Page.transcript_turn, Page.add, blank]
    refine empty.pushAll fun line mem text source => ?_
    rw [source_of_mem_written mem] at source
    cases source

/-! ### Runs -/

lemma exists_last {s : Session ε} {e : Event} (taken : (s.takenBack? e).isSome)
    (asks : s.action? e = some .undo) :
    s.isExiting = false ∧ ∃ front last, s.evaluated = front ++ [last] := by
  obtain ⟨n, some⟩ := Option.isSome_iff_exists.1 taken
  refine ⟨running_of_takenBack? some, ?_⟩
  rcases takenBack?_cases some with ⟨-, full, -⟩ | ⟨cancel, -, -⟩
  · obtain none | ⟨front, last, evaluated⟩ := s.evaluated.eq_nil_or_concat
    · exact absurd none full
    · exact ⟨front, last, by rw [evaluated, List.concat_eq_append]⟩
  · rw [asks] at cancel
    cases cancel

lemma earlier_one {s : Session ε} {front : List Evaluated} {last : Evaluated}
    (evaluated : s.evaluated = front ++ [last]) : s.earlier 1 = front.map (·.text) := by
  rw [earlier, evaluated, List.length_append, List.length_singleton, Nat.add_sub_cancel,
    List.take_left]

variable [Evaluator ε]

/-- Undoing the last line goes on with a statement, but the transcript has other lines of it than were
left of the one before: either the last line of a finished statement was taken back, or the replay was
interrupted. -/
def Misplaces (s : Session ε) (e : Event) : Prop :=
  (s.takenBack? e).isSome ∧ s.action? e = some .undo ∧ (s.replayed 1).buffer ≠ [] ∧
    s.kept (s.core.back 1 (s.replayed 1)).unfinished ≠ s.kept s.unfinished.dropLast

instance decidableMisplaces (s : Session ε) (e : Event) : Decidable (s.Misplaces e) :=
  inferInstanceAs (Decidable (_ ∧ _ ∧ _ ∧ _))

variable {s : Session ε}

lemma suffix_replayed {front : List Evaluated} {last : Evaluated}
    (evaluated : s.evaluated = front ++ [last]) :
    (s.replayed 1).buffer <:+ front.map (·.text) := by
  rw [← earlier_one evaluated]
  exact Replay.buffer_suffix _ rfl _

lemma traced_event (h : s.core.isExiting = true ∨ s.core.Traced s.page) (e : Event) (now : Int) :
    (s.happen (.event e now)).core.isExiting = true ∨
      (s.happen (.event e now)).core.Traced (s.happen (.event e now)).page := by
  cases taken : s.takenBack? e with
  | none => exact lasting_traced.event_of_none taken h now
  | some n =>
    have running := running_of_takenBack? taken
    have traced : s.core.Traced s.page := h.resolve_left (by simp [core, running])
    right
    rcases takenBack?_cases taken with ⟨undo, -, -⟩ | ⟨cancel, -, -⟩
    · obtain ⟨-, front, last, evaluated⟩ := exists_last (by rw [taken]; rfl) undo
      obtain ⟨core, page⟩ := event_of_undo undo running evaluated now
      rw [core, page]
      exact traced.undo evaluated (suffix_replayed evaluated)
    · obtain ⟨core, text, lines, entry, page⟩ := event_of_cancel taken cancel now
      rw [core, page]
      exact traced.cancel _ _ entry

theorem traced_after (h : s.core.isExiting = true ∨ s.core.Traced s.page) (run : List Happening) :
    (s.after run).core.isExiting = true ∨ (s.after run).core.Traced (s.after run).page := by
  induction run generalizing s with
  | nil => exact h
  | cons happening run ih =>
    cases happening with
    | event e now => exact ih (traced_event h e now)
    | meanwhile patience files lineSources redraws => exact ih h

/-- An event keeps the statement located just when it does not misplace it. -/
lemma located_event_of_undo {e : Event} (placed : s.core.Placed s.page)
    (taken : (s.takenBack? e).isSome) (asks : s.action? e = some .undo) (now : Int) :
    (s.happen (.event e now)).core.Located (s.happen (.event e now)).page ↔ ¬ s.Misplaces e := by
  obtain ⟨running, front, last, evaluated⟩ := exists_last taken asks
  obtain ⟨core, page⟩ := event_of_undo asks running evaluated now
  rw [core, page, Core.located_undo_iff placed.located placed.traced evaluated, Misplaces]
  simp only [taken, asks, true_and, not_and, not_not]
  rfl

lemma placed_event {e : Event} (h : s.core.isExiting = true ∨ s.core.Placed s.page)
    (keeps : ¬ s.Misplaces e) (now : Int) : (s.happen (.event e now)).core.isExiting = true ∨
      (s.happen (.event e now)).core.Placed (s.happen (.event e now)).page := by
  cases taken : s.takenBack? e with
  | none => exact lasting_placed.event_of_none taken h now
  | some n =>
    have running := running_of_takenBack? taken
    have placed : s.core.Placed s.page := h.resolve_left (by simp [core, running])
    have traced := traced_event (h.imp id Core.Placed.traced) e now
    refine traced.imp id fun traced => ⟨?_, traced⟩
    rcases takenBack?_cases taken with ⟨undo, -, -⟩ | ⟨cancel, -, -⟩
    · exact (located_event_of_undo placed (by rw [taken]; rfl) undo now).2 keeps
    · obtain ⟨core, text, lines, entry, page⟩ := event_of_cancel taken cancel now
      rw [core, page]
      exact Core.located_turn_false rfl _

lemma not_located_event {e : Event} (h : s.core.isExiting = true ∨ s.core.Placed s.page)
    (misplaces : s.Misplaces e) (now : Int) :
    ¬ ((s.happen (.event e now)).isExiting = true ∨ (s.happen (.event e now)).Located) := by
  obtain ⟨taken, asks, -, -⟩ := id misplaces
  obtain ⟨running, front, last, evaluated⟩ := exists_last taken asks
  have placed : s.core.Placed s.page := h.resolve_left (by simp [core, running])
  rw [not_or]
  constructor
  · have core := (event_of_undo asks running evaluated now).1
    have exiting : (s.happen (.event e now)).isExiting = false := congrArg Core.isExiting core
    rw [exiting]
    exact Bool.false_ne_true
  · exact fun located => (located_event_of_undo placed taken asks now).1 located misplaces

/-- At every moment of a run the statement is located just when no undo of the run misplaces it. While
it is located, the input lines from its start on are its lines, if the transcript still has them all, and
a closing bracket marks the opening one on an earlier line of it. -/
theorem located_throughout_iff (unused : s.IsUnused) (banner : Bytes) (run : List Happening) :
    ((∀ front, front <+: run → ((s.start banner).after front).isExiting = true ∨
        ((s.start banner).after front).Located) ↔
      Throughout (fun s e => ¬ s.Misplaces e) (s.start banner) run) ∧
      let s' := (s.start banner).after run
      s'.isExiting = false → s'.Located →
        ((∀ line ∈ s'.unfinished, s'.transcript.first ≤ line.mark) →
          s'.page.statement.map (·.text) = s'.buffer) ∧
        (s'.renderer.geometry.isDegenerate = false → s'.frame.isActive = true →
          s'.isPasting = false → s'.MarksOpenings) := by
  have placed := unused.placed_start banner
  constructor
  · refine forall_after_iff (fun s => s.isExiting = true ∨ s.Located)
      (fun s => s.core.isExiting = true ∨ s.core.Placed s.page) ?_ ?_ ?_ ?_ (.inr placed) run
    · intro s h
      exact h.imp id Core.Placed.located
    · intro s patience files lineSources redraws h
      exact h
    · intro s e now h keeps
      exact placed_event h keeps now
    · intro s e now h misplaces
      exact not_located_event h misplaces now
  · intro s' running located
    have traced : s'.core.Traced s'.page :=
      (traced_after (.inr placed.traced) run).resolve_left (by rw [core, running]; exact Bool.false_ne_true)
    refine ⟨fun whole => ?_, marksOpenings_of_located located traced⟩
    have all : s'.kept s'.unfinished = s'.unfinished :=
      List.filter_eq_self.2 fun line mem => decide_eq_true (whole line mem)
    rw [located, all]
    exact traced.buffer

end

/-- A bracket that was left open two lines above is marked. -/
theorem located_throughout_open_bracket :
    let s₀ : Session Calculator := (Shell.session {} {} {}).start []
    let run : List Happening :=
      [.event (.line (bytes "(")) 0, .event (.line (bytes "3")) 1, .event (.text (bytes ")")) 2]
    (∀ front, front <+: run → (s₀.after front).isExiting = true ∨ (s₀.after front).Located) ∧
      (s₀.after run).page.statement.map (·.text) = [bytes "(", bytes "3"] ∧
      (s₀.after run).MarksOpenings := by
  intro s₀ run
  obtain ⟨keeps, running, whole, buffer, usable, active, typed⟩ :
      Throughout (fun s e => ¬ s.Misplaces e) s₀ run ∧ (s₀.after run).isExiting = false ∧
        (∀ line ∈ (s₀.after run).unfinished, (s₀.after run).transcript.first ≤ line.mark) ∧
        (s₀.after run).buffer = [bytes "(", bytes "3"] ∧
        (s₀.after run).renderer.geometry.isDegenerate = false ∧
        (s₀.after run).frame.isActive = true ∧ (s₀.after run).isPasting = false := by
    decide +kernel
  obtain ⟨iff, facts⟩ := located_throughout_iff (s := Shell.session {} {} {}) ⟨rfl, rfl⟩ [] run
  have all := iff.2 keeps
  have located : (s₀.after run).Located :=
    (all run (List.prefix_refl _)).resolve_left (by rw [running]; exact Bool.false_ne_true)
  obtain ⟨statement, marks⟩ := facts running located
  exact ⟨all, (statement whole).trans buffer, marks usable active typed⟩

/-- Undoing the last line of a finished statement of three lines goes on with the other two, but the
renderer looks for the statement behind them: a closing bracket does not find the opening one. -/
theorem undo_into_finished_statement_misplaces :
    let s₀ : Session Calculator := (Shell.session {} {} {}).start []
    let run : List Happening :=
      [.event (.line (bytes "(")) 0, .event (.line (bytes "3")) 1, .event (.line (bytes "4)")) 2,
        .event (.action .undo) 3, .event (.text (bytes ")")) 4]
    (s₀.after run).isExiting = false ∧ (s₀.after run).buffer = [bytes "(", bytes "3"] ∧
      (s₀.after run).transcript.first = 0 ∧ (s₀.after run).page.statement = [] ∧
      (s₀.after run).line.before = bytes ")" ∧ (s₀.after run).frame.isActive = true ∧
      (s₀.after run).isPasting = false ∧ (s₀.after run).draw.renderer.paren = none := by
  decide +kernel

/-! ### Undisturbed replays -/

/-- An undo within a statement goes on with its other lines. -/
lemma buffer_replayed_undo {s : Session Calculator} (faithful : s.core.Faithful)
    (quiet : Replay.IsQuiet s.surroundings.env s.replayStart (s.earlier 1))
    {front : List Evaluated} {last : Evaluated} (evaluated : s.evaluated = front ++ [last])
    (some : s.buffer ≠ []) : (s.replayed 1).buffer = s.buffer.dropLast := by
  have texts : s.core.texts = front.map (·.text) ++ [last.text] := by
    rw [Core.texts, core, evaluated, List.map_append]
    rfl
  have buffer : (Replay.undisturbed s.surroundings.env s.evaluator s.core.texts).buffer = s.buffer :=
    faithful.buffer
  rw [texts, Replay.undisturbed_concat, Replay.buffer_feed] at buffer
  rw [(replayed_same_undisturbed quiet).buffer, earlier_one evaluated]
  split at buffer
  · rw [← buffer, List.dropLast_concat]
  · exact absurd buffer.symm some

/-- As long as no replay is interrupted, an undo misplaces the statement just when it takes back the last
line of a finished one of which the transcript still has other lines. -/
theorem misplaces_iff_of_quiet {s : Session Calculator} (faithful : s.core.Faithful) {e : Event}
    (quiet : s.ReplaysQuietly e) : s.Misplaces e ↔
      (s.takenBack? e).isSome ∧ s.action? e = some .undo ∧ s.buffer = [] ∧
        s.kept (s.core.back 1 (s.replayed 1)).unfinished ≠ [] := by
  unfold Misplaces
  refine and_congr_right fun taken => and_congr_right fun asks => ?_
  by_cases finished : s.buffer = []
  · have none : s.unfinished = [] := Core.unfinished_of_nil finished
    rw [none]
    constructor
    · exact fun h => ⟨finished, h.2⟩
    · refine fun h => ⟨fun empty => h.2 ?_, h.2⟩
      have nothing : (s.core.back 1 (s.replayed 1)).unfinished = [] := Core.unfinished_of_nil empty
      rw [nothing]
      rfl
  · obtain ⟨running, front, last, evaluated⟩ := exists_last taken asks
    have full : s.evaluated ≠ [] := by
      rw [evaluated]
      simp
    have one : s.takenBack? e = some 1 := by
      rw [takenBack?_of_running running, asks, Option.bind_some, takes?, if_neg full]
    have buffer := buffer_replayed_undo faithful (quiet 1 one) evaluated finished
    have same : (s.core.back 1 (s.replayed 1)).unfinished = s.unfinished.dropLast := by
      have length := List.length_pos_iff.2 finished
      have inBuffer : (s.core.back 1 (s.replayed 1)).buffer = s.buffer.dropLast := buffer
      have inCore : s.core.evaluated.length = front.length + 1 := by
        rw [core, evaluated, List.length_append, List.length_singleton]
      rw [Core.unfinished, Core.evaluated_back evaluated, inBuffer, unfinished,
        Core.unfinished_eq_concat evaluated finished, List.dropLast_concat, List.length_dropLast, inCore]
      congr 1
      change _ = front.length + 1 - s.buffer.length
      omega
    rw [same]
    simp [finished]

end CalcShell.Session
