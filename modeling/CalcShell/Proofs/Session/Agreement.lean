import CalcShell.Proofs.Session.Faithful

/-! Session and calculator both remember whether a statement is unfinished. They agree about it until
an interrupted replay makes the session drop lines that the calculator goes on with. -/
namespace CalcShell.Session
open CalcShell.Calc (Calculator)

/-- The session goes on with a statement just when the calculator does. -/
def Core.InStep (c : Core Calculator) : Prop := c.evaluator.isUnfinished = !c.buffer.isEmpty

/-- The lines that a replay gets through leave a statement unfinished, but the session begins a new
one: since it gave a statement up, or since the last line of the replay was interrupted. -/
def LosesStatement (s : Session Calculator) (e : Event) : Prop :=
  ∃ n ∈ s.takenBack? e,
    (Replay.undisturbed s.surroundings.env s.evaluator
      (Replay.survivors s.surroundings.env s.replayStart (s.earlier n))).evaluator.isUnfinished ∧
    (s.action? e = some .undo →
      Replay.IsCutAtEnd s.surroundings.env s.replayStart (s.earlier n))

instance decidableLosesStatement (s : Session Calculator) (e : Event) :
    Decidable (s.LosesStatement e) :=
  inferInstanceAs (Decidable (∃ n ∈ s.takenBack? e, _ ∧ (_ → _)))

/-! ### Submissions -/

/-- In step, and able to stay so. -/
structure Core.Sound (c : Core Calculator) : Prop where
  inStep : c.InStep
  formed : c.evaluator.WellFormed

lemma Core.Sound.take_of_taken {c : Core Calculator} (h : c.Sound) {patience : Patience}
    {line : Evaluated}
    (calm : (c.submit patience line.text).outcome ≠ .interrupted)
    (stays : (c.submit patience line.text).outcome ≠ .exit) :
    (c.take line (c.submit patience line.text)).Sound := by
  have next : (c.submit patience line.text).next.isUnfinished =
      (c.submit patience line.text).outcome.asksMore :=
    Calculator.isUnfinished_next c.env patience line.text h.formed calm
  rw [Core.take_of_taken c line calm stays]
  refine ⟨?_, Calculator.wellFormed_next c.env patience line.text h.formed⟩
  unfold Core.InStep
  dsimp only
  rw [next]
  split <;> simp [*]

lemma Core.Sound.take_of_interrupted {c : Core Calculator} (h : c.Sound) {patience : Patience}
    {line : Evaluated}
    (cut : (c.submit patience line.text).outcome = .interrupted) :
    (c.take line (c.submit patience line.text)).Sound := by
  have back : (c.submit patience line.text).next.Alike c.evaluator :=
    Calculator.next_alike_of_interrupted c.env patience line.text cut
  unfold Core.take
  rw [cut]
  refine ⟨?_, Calculator.wellFormed_next c.env patience line.text h.formed⟩
  unfold Core.InStep
  dsimp only
  rw [back.isUnfinished_eq]
  exact h.inStep

lemma lasting_sound :
    Core.Lasting fun c : Core Calculator => c.isExiting = true ∨ c.Sound :=
  Core.lasting_of_running (fun h => h.take_of_taken) fun h => h.take_of_interrupted

/-! ### Taking back -/

variable {s : Session Calculator} {n : Nat}

/-- What a replay leaves unfinished is what the lines that it gets through leave unfinished. -/
lemma isUnfinished_replayed : (s.replayed n).evaluator.isUnfinished =
    (Replay.undisturbed s.surroundings.env s.evaluator
      (Replay.survivors s.surroundings.env s.replayStart (s.earlier n))).evaluator.isUnfinished :=
  (Replay.alike_undisturbed_survivors s.evaluator s.surroundings.patience _).isUnfinished_eq

lemma formed_replayed : (s.replayed n).evaluator.WellFormed :=
  Replay.wellFormed_foldl (Calculator.wellFormed_reset s.evaluator) (s.earlier n)

lemma losesStatement_iff {e : Event} (taken : s.takenBack? e = some n) :
    s.LosesStatement e ↔ (s.replayed n).evaluator.isUnfinished ∧
      (s.action? e = some .undo →
        Replay.IsCutAtEnd s.surroundings.env s.replayStart (s.earlier n)) := by
  unfold LosesStatement
  rw [taken, isUnfinished_replayed]
  simp

/-- An event that takes lines back leaves session and calculator in step unless it loses a
statement. -/
lemma inStep_back_iff {e : Event} (taken : s.takenBack? e = some n) :
    (s.takeBack e n).InStep ↔ ¬ s.LosesStatement e := by
  rw [losesStatement_iff taken]
  unfold Core.InStep takeBack
  dsimp only [Core.back]
  by_cases undo : s.action? e = some .undo
  · rw [if_pos undo]
    simp only [undo, forall_const]
    exact Replay.isUnfinished_foldl_iff (Calculator.wellFormed_reset s.evaluator) rfl (s.earlier n)
  · rw [if_neg undo]
    simp [undo]

/-! ### Runs -/

/-- Unless it has ended, the session is in step. -/
def Agrees (s : Session Calculator) : Prop :=
  s.isExiting = true ∨ s.isContinuation = s.evaluator.isUnfinished

lemma agrees_iff (s : Session Calculator) :
    s.Agrees ↔ s.core.isExiting = true ∨ s.core.InStep := by
  unfold Agrees Core.InStep
  rw [eq_comm (a := s.isContinuation)]
  rfl

lemma agrees_of_sound (h : s.core.isExiting = true ∨ s.core.Sound) : s.Agrees :=
  (agrees_iff s).2 (h.imp id Core.Sound.inStep)

/-- After one event the session is sound again, unless the event loses a statement. -/
lemma sound_event {e : Event} (h : s.core.isExiting = true ∨ s.core.Sound)
    (keeps : ¬ s.LosesStatement e) (now : Int) :
    (s.happen (.event e now)).core.isExiting = true ∨ (s.happen (.event e now)).core.Sound := by
  cases taken : s.takenBack? e with
  | none => exact lasting_sound.event_of_none taken h now
  | some n =>
    rw [core_event_of_some taken]
    exact .inr ⟨(inStep_back_iff taken).2 keeps, formed_replayed⟩

lemma not_agrees_event {e : Event} (loses : s.LosesStatement e) (now : Int) :
    ¬ (s.happen (.event e now)).Agrees := by
  obtain ⟨n, taken, -⟩ := id loses
  rw [agrees_iff, core_event_of_some taken, not_or, inStep_back_iff taken, not_not]
  exact ⟨Bool.false_ne_true, loses⟩

theorem agrees_iff_of_sound (h : s.core.isExiting = true ∨ s.core.Sound) (run : List Happening) :
    (∀ front, front <+: run → (s.after front).Agrees) ↔
      Throughout (fun s e => ¬ s.LosesStatement e) s run := by
  refine forall_after_iff Agrees (fun s => s.core.isExiting = true ∨ s.core.Sound) ?_ ?_ ?_ ?_ h run
  · intro s h
    exact agrees_of_sound h
  · intro s patience files lineSources redraws h
    exact h
  · intro s e now h keeps
    exact sound_event h keeps now
  · intro s e now _ loses
    exact not_agrees_event loses now

/-- Session and calculator agree at every moment of a run just when no undo and no cancelling of the
run loses a statement. -/
theorem agrees_throughout_iff {s₀ : Session Calculator} (new : s₀.IsNew) (run : List Happening) :
    (∀ front, front <+: run → (s₀.after front).isExiting = true ∨
        (s₀.after front).isContinuation = (s₀.after front).evaluator.isUnfinished) ↔
      Throughout (fun s e => ¬ s.LosesStatement e) s₀ run := by
  refine agrees_iff_of_sound (.inr ⟨?_, new.fresh.wellFormed⟩) run
  change s₀.evaluator.isUnfinished = !s₀.buffer.isEmpty
  rw [new.fresh.isUnfinished, new.buffer]
  rfl

theorem agrees_throughout_undone_line :
    let run : List Happening :=
      [.event (.line (bytes "(")) 0, .event (.line (bytes "3")) 1, .event (.action .undo) 2]
    ∀ front, front <+: run → ((Shell.start {} {} none {}).after front).isExiting = true ∨
      ((Shell.start {} {} none {}).after front).isContinuation =
        ((Shell.start {} {} none {}).after front).evaluator.isUnfinished :=
  (agrees_throughout_iff (isNew_shell_start {} {} none {}) _).2 (by decide +kernel)

/-- The replay loses the opening bracket when its last line is interrupted; the calculator goes on
with the bracket. -/
theorem interrupted_undo_loses_bracket :
    let run : List Happening :=
      [.event (.line (bytes "(")) 0, .event (.line (bytes "sleep(0))")) 1,
        .event (.line (bytes "1")) 2, .meanwhile (.atCheck 1) .empty [] true,
        .event (.action .undo) 3]
    ((Shell.start {} {} none {}).after run).isExiting = false ∧
      ((Shell.start {} {} none {}).after run).isContinuation = false ∧
      ((Shell.start {} {} none {}).after run).evaluator.isUnfinished = true := by
  decide +kernel

lemma Core.Faithful.inStep {c : Core Calculator} (h : c.Faithful) : c.InStep := by
  have buffer : (Replay.undisturbed c.env c.evaluator c.texts).buffer = c.buffer := h.buffer
  have evaluator : (Replay.undisturbed c.env c.evaluator c.texts).evaluator.isUnfinished =
      c.evaluator.isUnfinished := h.evaluator.isUnfinished_eq
  unfold Core.InStep
  rw [← evaluator, ← buffer]
  exact Replay.isUnfinished_undisturbed

/-- As long as no replay is interrupted, session and calculator agree. -/
theorem agrees_of_quiet {s₀ : Session Calculator} (new : s₀.IsNew) {run : List Happening}
    (quiet : Throughout ReplaysQuietly s₀ run) : (s₀.after run).Agrees :=
  (agrees_iff _).2 ((faithful_after new quiet).imp id Core.Faithful.inStep)

end CalcShell.Session
