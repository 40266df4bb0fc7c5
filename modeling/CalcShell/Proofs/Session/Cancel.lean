import CalcShell.Proofs.Session.Agreement

/-! Giving a statement up drops its lines, and nothing else: what the replay of the other lines leaves
is what the session had before the statement. -/
namespace CalcShell.Session
open CalcShell.Calc (Calculator)

section

variable {ε : Type} [Evaluator ε]

lemma core_event_of_interrupt_nil {s : Session ε} {e : Event}
    (asks : s.action? e = some .interrupt) (running : s.isExiting = false)
    (none : s.buffer = []) (now : Int) : (s.happen (.event e now)).core = s.core := by
  have core : (Session.handle { s with isStuck := false } e now).core =
      { s.core with isExiting := false } := by
    obtain ⟨noted, rfl | rfl, performed⟩ :=
      handle_eq_perform (s := { s with isStuck := false }) asks (by simp) running now
    all_goals
      rw [performed]
      exact core_cancel_nil (by exact none) now
  rw [happen, if_neg (by simp [running]), core, ← running]
  rfl

end

variable {s : Session Calculator}

lemma Core.Faithful.buffer_eq_drop {c : Core Calculator} (h : c.Faithful) :
    c.texts.drop (c.texts.length - c.buffer.length) = c.buffer := by
  obtain ⟨front, split, -⟩ := Replay.lines_before_buffer c.env c.evaluator c.texts
  have buffer : (Replay.undisturbed c.env c.evaluator c.texts).buffer = c.buffer := h.buffer
  rw [split, buffer, List.length_append, Nat.add_sub_cancel, List.drop_left]

/-- The lines before an unfinished statement leave the names that it began with. -/
lemma Core.Faithful.names_undisturbed {c : Core Calculator} (h : c.Faithful) :
    (Replay.undisturbed c.env c.evaluator
      (c.texts.take (c.texts.length - c.buffer.length))).evaluator.names = c.evaluator.names := by
  have buffer : (Replay.undisturbed c.env c.evaluator c.texts).buffer = c.buffer := h.buffer
  have names : (Replay.undisturbed c.env c.evaluator c.texts).evaluator.names =
      c.evaluator.names := h.evaluator.names
  rw [← buffer, Replay.names_undisturbed_before_buffer, names]

lemma earlier_eq_take_texts (n : Nat) :
    s.earlier n = s.core.texts.take (s.core.texts.length - n) := by
  simp [earlier, Core.texts, core]

/-- The replay without the statement has the names of the session, and nothing unfinished. -/
lemma replayed_without_statement (faithful : s.core.Faithful)
    (quiet : Replay.IsQuiet s.surroundings.env s.replayStart (s.earlier s.buffer.length)) :
    (s.replayed s.buffer.length).evaluator.names = s.evaluator.names ∧
      (s.replayed s.buffer.length).evaluator.isUnfinished = false := by
  have same := replayed_same_undisturbed quiet
  rw [earlier_eq_take_texts] at same
  constructor
  · exact same.evaluator.names.trans faithful.names_undisturbed
  · have none : (Replay.undisturbed s.surroundings.env s.evaluator
        (s.core.texts.take (s.core.texts.length - s.buffer.length))).buffer = [] :=
      faithful.buffer_undisturbed
    rw [same.evaluator.isUnfinished_eq, Replay.isUnfinished_undisturbed, none]
    rfl

/-- Cancelling leaves the names alone and takes the lines of the unfinished statement from those
evaluated: in every session that a run without interrupted replays leads to, for every event that asks
for it, as long as the replay of the other lines is not interrupted. -/
theorem cancel_drops_statement {s₀ : Session Calculator} (new : s₀.IsNew) {run : List Happening}
    (quiet : Throughout ReplaysQuietly s₀ run) (reached : s = s₀.after run)
    (running : s.isExiting = false) {e : Event} (asks : s.action? e = some .interrupt)
    (undisturbed : s.ReplaysQuietly e) (now : Int) :
    let s' := s.happen (.event e now)
    s'.evaluator.names = s.evaluator.names ∧ s'.evaluator.pending = [] ∧
      s'.evaluator.block = none ∧ s'.buffer = [] ∧
      ∃ statement, s.evaluated = s'.evaluated ++ statement ∧
        statement.map (·.text) = s.buffer := by
  have faithful : s.core.Faithful := by
    rw [reached] at running ⊢
    exact (faithful_after new quiet).resolve_left (by simp [running])
  have texts : (s.evaluated.drop (s.evaluated.length - s.buffer.length)).map (·.text) =
      s.buffer := by
    have drop := faithful.buffer_eq_drop
    rw [Core.texts, List.length_map, ← List.map_drop] at drop
    exact drop
  intro s'
  by_cases none : s.buffer = []
  · have core : s'.core = s.core := core_event_of_interrupt_nil asks running none now
    have evaluator : s'.evaluator = s.evaluator := congrArg Core.evaluator core
    have evaluated : s'.evaluated = s.evaluated := congrArg Core.evaluated core
    have finished : s.evaluator.isUnfinished = false := by
      have inStep : s.evaluator.isUnfinished = !s.buffer.isEmpty := faithful.inStep
      rw [inStep, none]
      rfl
    rw [Calculator.isUnfinished_eq_false] at finished
    rw [evaluator, evaluated]
    refine ⟨rfl, finished.1, finished.2, (congrArg Core.buffer core).trans none, [], ?_, ?_⟩
    · rw [List.append_nil]
    · rw [none, List.map_nil]
  · have taken : s.takenBack? e = some s.buffer.length := by
      rw [takenBack?_of_running running, asks, Option.bind_some, takes?, if_neg none]
    have core : s'.core = s.takeBack e s.buffer.length := core_event_of_some taken now
    have evaluator : s'.evaluator = (s.replayed s.buffer.length).evaluator :=
      congrArg Core.evaluator core
    have evaluated : s'.evaluated =
        s.evaluated.take (s.evaluated.length - s.buffer.length) := congrArg Core.evaluated core
    have buffer : s'.buffer = [] := by
      refine (congrArg Core.buffer core).trans ?_
      rw [takeBack, asks, if_neg (by simp)]
    obtain ⟨names, finished⟩ := replayed_without_statement faithful (undisturbed _ taken)
    rw [Calculator.isUnfinished_eq_false] at finished
    rw [evaluator, evaluated]
    exact ⟨names, finished.1, finished.2, buffer, _, (List.take_append_drop _ _).symm, texts⟩

/-- A statement of two lines, after a third one was taken back. -/
theorem cancel_drops_statement_of_two_lines :
    let run : List Happening :=
      [.event (.line (bytes "x = 3")) 0, .event (.line (bytes "(x")) 1,
        .event (.line (bytes "+")) 2, .event (.line (bytes "4")) 3, .event (.action .undo) 4]
    let s := (Shell.start {} {} none {}).after run
    s.buffer = [bytes "(x", bytes "+"] ∧
      let s' := s.happen (.event (.key (bytes "C-c")) 5)
      s'.evaluator.names = s.evaluator.names ∧ s'.evaluator.pending = [] ∧
        s'.evaluator.block = none ∧ s'.buffer = [] ∧
        ∃ statement, s.evaluated = s'.evaluated ++ statement ∧
          statement.map (·.text) = s.buffer := by
  intro run s
  obtain ⟨quiet, running, asks, undisturbed, buffer⟩ :
      Throughout ReplaysQuietly (Shell.start {} {} none {}) run ∧ s.isExiting = false ∧
        s.action? (.key (bytes "C-c")) = some .interrupt ∧
        s.ReplaysQuietly (.key (bytes "C-c")) ∧ s.buffer = [bytes "(x", bytes "+"] := by
    decide +kernel
  have new := isNew_shell_start {} {} none {}
  exact ⟨buffer, cancel_drops_statement (s := s) new quiet rfl running asks undisturbed 5⟩

end CalcShell.Session
