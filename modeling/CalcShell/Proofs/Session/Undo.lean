import CalcShell.Proofs.Session.Faithful
import CalcShell.Proofs.Session.Page

/-! Undoing a line that was taken leads back to the session before it. -/
namespace CalcShell.Session
open CalcShell.Calc (Calculator)

section

variable {s : Session Calculator} (calm : s.submission.outcome ≠ .interrupted)
  (stays : s.submission.outcome ≠ .exit) (patience : Patience) (now later : Int)
include calm stays

lemma core_submit_of_taken : ((s.submit now).withPatience patience).core =
    { s.core with
      evaluator := s.submission.next
      buffer := if s.submission.outcome.asksMore then s.buffer ++ [s.line.text] else []
      evaluated := s.evaluated ++ [s.record]
      isExiting := false } := by
  change (s.submit now).core = _
  rw [core_submit, Core.take_of_taken _ _ calm stays]
  rfl

/-- The replay after the line makes of the lines before it what there was. -/
lemma replayed_submit_same (faithful : s.core.Faithful)
    (quiet : ((s.submit now).withPatience patience).ReplaysQuietly (.action .undo)) :
    (((s.submit now).withPatience patience).replayed 1).Same (s.core.asReplay patience) := by
  have core := core_submit_of_taken calm stays patience now
  generalize (s.submit now).withPatience patience = s' at core quiet ⊢
  have evaluated : s'.evaluated = s.evaluated ++ [s.record] := congrArg Core.evaluated core
  have evaluator : s'.evaluator = s.submission.next := congrArg Core.evaluator core
  have env : s'.surroundings.env = s.surroundings.env := congrArg Core.env core
  have running : s'.isExiting = false := congrArg Core.isExiting core
  have earlier : s'.earlier 1 = s.core.texts := by
    simp [Session.earlier, evaluated, Core.texts, Session.core]
  have taken : s'.takenBack? (.action .undo) = some 1 := by
    rw [takenBack?_of_running running]
    simp [action?, takes?, evaluated]
  have same := replayed_same_undisturbed (quiet 1 taken)
  rw [earlier, evaluator, env] at same
  have before := faithful.same s.surroundings.patience.clear s.line.text
  exact same.trans ⟨before.evaluator, before.buffer⟩

theorem undo_submit_of_faithful (faithful : s.core.Faithful)
    (quiet : ((s.submit now).withPatience patience).ReplaysQuietly (.action .undo)) :
    let s' := ((s.submit now).withPatience patience).undo later
    s'.evaluated = s.evaluated ∧ s'.buffer = s.buffer ∧ s'.evaluator.Alike s.evaluator ∧
      ((s.submit now).transcript.first = s.transcript.first → s'.transcript = s.transcript) := by
  have core := core_submit_of_taken calm stays patience now
  have same := replayed_submit_same calm stays patience now faithful quiet
  have grown : s.transcript.Extends ((s.submit now).withPatience patience).transcript :=
    extends_submit calm now
  change let s' := ((s.submit now).withPatience patience).undo later
    s'.evaluated = s.evaluated ∧ s'.buffer = s.buffer ∧ s'.evaluator.Alike s.evaluator ∧
      (((s.submit now).withPatience patience).transcript.first = s.transcript.first →
        s'.transcript = s.transcript)
  generalize (s.submit now).withPatience patience = submitted at core same grown ⊢
  have evaluated : submitted.evaluated = s.evaluated ++ [s.record] := congrArg Core.evaluated core
  have undone := core_undo (s := submitted) (by simp [evaluated]) later
  refine ⟨?_, ?_, ?_, fun kept => ?_⟩
  · calc (submitted.undo later).evaluated
      _ = submitted.evaluated.take (submitted.evaluated.length - 1) :=
        congrArg Core.evaluated undone
      _ = s.evaluated := by simp [evaluated]
  · exact (congrArg Core.buffer undone).trans same.buffer
  · have evaluator : (submitted.undo later).evaluator = (submitted.replayed 1).evaluator :=
      congrArg Core.evaluator undone
    rw [evaluator]
    exact same.evaluator
  · have last : submitted.evaluated.getLast? = some s.record := by
      rw [evaluated, List.getLast?_concat]
    rw [transcript_undo last later]
    exact Renderer.transcript_rewind grown kept

end

/-- Undoing a line that was taken leads back to the session before it: in every session that a run
without interrupted replays leads to, for every line, and whenever the user interrupts, as long as
neither the line nor this replay is interrupted. The transcript is the same unless it was full. -/
theorem undo_submit {s₀ s : Session Calculator} (new : s₀.IsNew) {run : List Happening}
    (quiet : Throughout ReplaysQuietly s₀ run) (line : InputLine)
    (edited : s = { s₀.after run with line }) (running : s.isExiting = false)
    (calm : s.submission.outcome ≠ .interrupted) (stays : s.submission.outcome ≠ .exit)
    (patience : Patience) (now later : Int)
    (undisturbed : ((s.submit now).withPatience patience).ReplaysQuietly (.action .undo)) :
    let s' := ((s.submit now).withPatience patience).undo later
    s'.evaluated = s.evaluated ∧ s'.buffer = s.buffer ∧ s'.evaluator.Alike s.evaluator ∧
      ((s.submit now).transcript.first = s.transcript.first → s'.transcript = s.transcript) := by
  subst edited
  have faithful := (faithful_after new quiet).resolve_left fun ended => by
    rw [show (s₀.after run).isExiting = false from running] at ended
    cases ended
  exact undo_submit_of_faithful calm stays patience now later faithful undisturbed

theorem undo_submit_closing_bracket :
    let run : List Happening :=
      [.event (.line (bytes "(")) 0, .event (.line (bytes "3")) 1, .event (.action .undo) 2]
    let s : Session Calculator :=
      { (Shell.start {} {} none {}).after run with line := { before := bytes "4)" } }
    let s' := ((s.submit 3).withPatience {}).undo 4
    s'.evaluated = s.evaluated ∧ s'.buffer = s.buffer ∧ s'.evaluator.Alike s.evaluator ∧
      s'.transcript = s.transcript := by
  intro run s s'
  obtain ⟨quiet, running, calm, stays, undisturbed, kept⟩ :
      Throughout ReplaysQuietly (Shell.start {} {} none {}) run ∧ s.isExiting = false ∧
        s.submission.outcome ≠ .interrupted ∧ s.submission.outcome ≠ .exit ∧
        ((s.submit 3).withPatience {}).ReplaysQuietly (.action .undo) ∧
        (s.submit 3).transcript.first = s.transcript.first := by decide +kernel
  have h := undo_submit (isNew_shell_start {} {} none {}) quiet { before := bytes "4)" } rfl running
    calm stays {} 3 4 undisturbed
  exact ⟨h.1, h.2.1, h.2.2.1, h.2.2.2 kept⟩

end CalcShell.Session
