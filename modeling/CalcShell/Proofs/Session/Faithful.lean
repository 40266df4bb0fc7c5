import CalcShell.Proofs.Session.Runs

/-! As long as no replay is interrupted, a session is at every moment what evaluating its lines anew,
and undisturbed, would make of it. -/
namespace CalcShell.Session
open CalcShell.Calc (Calculator)

namespace Core

def texts {ε : Type} (c : Core ε) : List Bytes := c.evaluated.map (·.text)

/-- A replay that has come as far as the session. -/
def asReplay {ε : Type} (c : Core ε) (patience : Patience) : Replay ε :=
  { evaluator := c.evaluator, patience, buffer := c.buffer }

/-- Evaluator and unfinished statement are those after an undisturbed replay of all lines. -/
def Faithful (c : Core Calculator) : Prop :=
  (Replay.undisturbed c.env c.evaluator c.texts).Same (c.asReplay {})

variable {c : Core Calculator} {patience : Patience} {line : Evaluated}

lemma Faithful.wellFormed (h : c.Faithful) : c.evaluator.WellFormed :=
  h.evaluator.wellFormed Replay.wellFormed_undisturbed

/-- What the replay leaves alone, whenever the user interrupts, and whatever the names are that a
reset keeps. -/
lemma Faithful.same (h : c.Faithful) (patience : Patience) (line : Bytes) :
    (Replay.undisturbed c.env (c.submit patience line).next c.texts).Same
      (c.asReplay patience) := by
  have reset := Calculator.reset_next_alike c.env patience line h.wellFormed
  exact (Replay.same_undisturbed_of_reset reset).trans ⟨h.evaluator, h.buffer⟩

/-- A line that was taken goes on with the replay. -/
lemma Faithful.take_of_taken (h : c.Faithful)
    (calm : (c.submit patience line.text).outcome ≠ .interrupted)
    (stays : (c.submit patience line.text).outcome ≠ .exit) :
    (c.take line (c.submit patience line.text)).Faithful := by
  have fed := (h.same patience line.text).feed line.text Replay.wellFormed_undisturbed
    (Replay.never_feed c.env line.text Replay.wellFormed_undisturbed Replay.never_undisturbed).1 calm
  have evaluator := fed.evaluator
  have buffer := fed.buffer
  rw [← Replay.undisturbed_concat] at evaluator buffer
  rw [Replay.evaluator_feed] at evaluator
  rw [Replay.buffer_feed (c.env)] at buffer
  rw [Core.take_of_taken c line calm stays]
  unfold Faithful texts
  rw [List.map_append]
  exact ⟨evaluator, buffer⟩

/-- A line that was interrupted leaves no trace. -/
lemma Faithful.take_of_interrupted (h : c.Faithful)
    (cut : (c.submit patience line.text).outcome = .interrupted) :
    (c.take line (c.submit patience line.text)).Faithful := by
  have back := Calculator.next_alike_of_interrupted c.env patience line.text cut
  have same := h.same patience line.text
  unfold Core.take
  rw [cut]
  exact ⟨same.evaluator.trans back.symm, same.buffer⟩

/-- The lines before an unfinished statement leave none. -/
lemma Faithful.buffer_undisturbed (h : c.Faithful) :
    (Replay.undisturbed c.env c.evaluator
      (c.texts.take (c.texts.length - c.buffer.length))).buffer = [] := by
  obtain ⟨front, split, empty⟩ := Replay.lines_before_buffer c.env c.evaluator c.texts
  have buffer : (Replay.undisturbed c.env c.evaluator c.texts).buffer = c.buffer := h.buffer
  have front_eq : c.texts.take (c.texts.length - c.buffer.length) = front := by
    rw [split, buffer, List.length_append, Nat.add_sub_cancel, List.take_left]
  rw [front_eq, empty]

end Core

lemma lasting_faithful :
    Core.Lasting fun c : Core Calculator => c.isExiting = true ∨ c.Faithful :=
  Core.lasting_of_running (fun h => h.take_of_taken) fun h => h.take_of_interrupted

variable {s : Session Calculator} {n : Nat}

lemma replayed_same_undisturbed
    (quiet : Replay.IsQuiet s.surroundings.env s.replayStart (s.earlier n)) :
    (s.replayed n).Same (Replay.undisturbed s.surroundings.env s.evaluator (s.earlier n)) :=
  Replay.same_undisturbed_of_isQuiet quiet

lemma faithful_back
    (quiet : Replay.IsQuiet s.surroundings.env s.replayStart (s.earlier n)) :
    (s.core.back n (s.replayed n)).Faithful := by
  have reset : (s.replayed n).evaluator.reset.Alike s.evaluator.reset :=
    (Replay.reset_foldl (Calculator.wellFormed_reset _) _).trans (Calculator.reset_reset_alike _)
  have same := (Replay.same_undisturbed_of_reset reset).trans (replayed_same_undisturbed quiet).symm
  exact ⟨same.evaluator, same.buffer⟩

/-- Giving a statement up leaves none unfinished. -/
lemma buffer_replayed (h : s.core.Faithful)
    (quiet : Replay.IsQuiet s.surroundings.env s.replayStart (s.earlier s.buffer.length)) :
    (s.replayed s.buffer.length).buffer = [] := by
  have texts : s.earlier s.buffer.length =
      s.core.texts.take (s.core.texts.length - s.buffer.length) := by
    simp [earlier, Core.texts, core]
  rw [(replayed_same_undisturbed quiet).buffer, texts]
  exact h.buffer_undisturbed

/-- Along a run in which no replay is interrupted. -/
theorem faithful_after {s₀ : Session Calculator} (new : s₀.IsNew) {run : List Happening}
    (quiet : Throughout ReplaysQuietly s₀ run) :
    (s₀.after run).isExiting = true ∨ (s₀.after run).core.Faithful := by
  refine lasting_faithful.after ?_ quiet ?_
  · intro s e n taken quiet h
    have h := h.resolve_left (by simp [core, running_of_takenBack? taken])
    have back := faithful_back (quiet n taken)
    right
    unfold takeBack
    rcases takenBack?_cases taken with ⟨undo, -, -⟩ | ⟨cancel, -, rfl⟩
    · rw [if_pos undo]
      exact back
    · rw [if_neg (by simp [cancel]), ← buffer_replayed h (quiet _ taken)]
      exact back
  · right
    have fresh := new.fresh.reset_alike
    have none : s₀.core.texts = [] := by rw [Core.texts, core, new.evaluated]; rfl
    unfold Core.Faithful
    rw [none]
    exact ⟨fresh, new.buffer.symm⟩

end CalcShell.Session
