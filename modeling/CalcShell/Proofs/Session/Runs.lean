import CalcShell.Program.Shell
import CalcShell.Proofs.Session.Events
import CalcShell.Proofs.Session.Replay

/-! Runs of a session: events in any order, and between them whatever others do to the session's
surroundings. -/
namespace CalcShell.Session
open CalcShell.Calc (Calculator)

inductive Happening where
  | event (event : Event) (now : Int)
  /-- Between two events: when the user will interrupt is up to the user, the files are everybody's,
  and lines arrive at the sources. -/
  | meanwhile (patience : Patience) (files : FileTree) (lineSources : List LineSource)
    (redraws : Bool)

section

variable {ε : Type} [Evaluator ε]

/-- An event that got stuck is over when the next one comes. Nothing comes after the end. -/
def happen (s : Session ε) : Happening → Session ε
  | .event e now => if s.isExiting then s else { s with isStuck := false }.handle e now
  | .meanwhile patience files lineSources redraws =>
    { s with surroundings := { s.surroundings with patience, files }, lineSources, redraws }

/-- The session after a run. -/
def after (s : Session ε) (run : List Happening) : Session ε := run.foldl happen s

/-- Every event of a run comes to a session that `P` lets it come to. -/
def Throughout (P : Session ε → Event → Prop) : Session ε → List Happening → Prop
  | _, [] => True
  | s, .event e now :: run => P s e ∧ Throughout P (s.happen (.event e now)) run
  | s, .meanwhile patience files lineSources redraws :: run =>
    Throughout P (s.happen (.meanwhile patience files lineSources redraws)) run

instance decidableThroughout (P : Session ε → Event → Prop) [∀ s e, Decidable (P s e)] :
    (s : Session ε) → (run : List Happening) → Decidable (Throughout P s run)
  | _, [] => inferInstanceAs (Decidable True)
  | s, .event e now :: run =>
    have := decidableThroughout P (s.happen (.event e now)) run
    inferInstanceAs (Decidable (_ ∧ _))
  | s, .meanwhile patience files lineSources redraws :: run =>
    decidableThroughout P (s.happen (.meanwhile patience files lineSources redraws)) run

lemma after_append (s : Session ε) (front back : List Happening) :
    s.after (front ++ back) = (s.after front).after back := List.foldl_append

/-- What is let come in a run is what is let come in its parts. -/
lemma throughout_append (P : Session ε → Event → Prop) (s : Session ε)
    (front back : List Happening) :
    Throughout P s (front ++ back) ↔ Throughout P s front ∧ Throughout P (s.after front) back := by
  induction front generalizing s with
  | nil => exact (iff_of_eq (true_and _)).symm
  | cons happening front ih =>
    cases happening with
    | event e now => exact (and_congr_right fun _ => ih _).trans and_assoc.symm
    | meanwhile patience files lineSources redraws => exact ih _

lemma Throughout.front {P : Session ε → Event → Prop} {s : Session ε} {front run : List Happening}
    (within : front <+: run) (h : Throughout P s run) : Throughout P s front := by
  obtain ⟨back, rfl⟩ := within
  exact ((throughout_append P s front back).1 h).1

/-- What holds whatever is done without taking lines back holds after every event that takes none
back. -/
lemma Lasting.event_of_none {I : Core ε → Page → Prop} (lasting : Lasting I) {s : Session ε}
    {e : Event} (none : s.takenBack? e = none) (h : I s.core s.page) (now : Int) :
    I (s.happen (.event e now)).core (s.happen (.event e now)).page := by
  cases running : s.isExiting with
  | true =>
    rw [happen, if_pos running]
    exact h
  | false =>
    rw [happen, if_neg (by simp [running])]
    exact lasting.handle (s := { s with isStuck := false }) none running h now

variable {I : Core ε → Prop}

lemma Core.Lasting.event_of_none (lasting : Core.Lasting I) {s : Session ε} {e : Event}
    (none : s.takenBack? e = none) (h : I s.core) (now : Int) :
    I (s.happen (.event e now)).core :=
  lasting.lift.event_of_none none h now

lemma core_event_of_some {s : Session ε} {e : Event} {n : Nat} (some : s.takenBack? e = some n)
    (now : Int) : (s.happen (.event e now)).core = s.takeBack e n := by
  rw [happen, if_neg (by simp [running_of_takenBack? some])]
  exact core_handle_of_takenBack? (s := { s with isStuck := false }) some now

/-- An event that takes the last line back. -/
lemma event_of_undo {s : Session ε} {e : Event} (asks : s.action? e = some .undo)
    (running : s.isExiting = false) {front : List Evaluated} {last : Evaluated}
    (evaluated : s.evaluated = front ++ [last]) (now : Int) :
    (s.happen (.event e now)).core = s.core.back 1 (s.replayed 1) ∧
      (s.happen (.event e now)).page =
        (s.page.rewind last.mark).turn (!(s.replayed 1).buffer.isEmpty) := by
  have full : s.evaluated ≠ [] := by
    rw [evaluated]
    simp
  have taken : s.takenBack? e = some 1 := by
    rw [takenBack?_of_running running, asks, Option.bind_some, takes?, if_neg full]
  constructor
  · rw [core_event_of_some taken, takeBack, if_pos asks]
    rfl
  · rw [happen, if_neg (by simp [running])]
    exact page_handle_of_undo (s := { s with isStuck := false }) asks running
      (by exact List.getLast?_eq_some_iff.2 ⟨front, evaluated⟩) now

/-- An event that gives the statement up. -/
lemma event_of_cancel {s : Session ε} {e : Event} {n : Nat} (taken : s.takenBack? e = some n)
    (asks : s.action? e = some .interrupt) (now : Int) :
    (s.happen (.event e now)).core = { s.core.back n (s.replayed n) with buffer := [] } ∧
      ∃ text lines, IsEntry text lines ∧
        (s.happen (.event e now)).page = (s.page.add lines).turn false := by
  have running := running_of_takenBack? taken
  constructor
  · rw [core_event_of_some taken, takeBack, asks, if_neg (by simp)]
  · rw [happen, if_neg (by simp [running])]
    exact page_handle_of_cancel (s := { s with isStuck := false }) asks running now

/-- What lasts while lines are submitted lasts for a whole run if it outlasts the taking back. -/
theorem Core.Lasting.after (lasting : Core.Lasting I) {P : Session ε → Event → Prop}
    (back : ∀ {s : Session ε} {e : Event} {n : Nat}, s.takenBack? e = some n → P s e → I s.core →
      I (s.takeBack e n))
    {run : List Happening} {s : Session ε} (allowed : Throughout P s run) (h : I s.core) :
    I (s.after run).core := by
  induction run generalizing s with
  | nil => exact h
  | cons happening run ih =>
    cases happening with
    | event e now =>
      refine ih allowed.2 ?_
      cases taken : s.takenBack? e with
      | none => exact lasting.event_of_none taken h now
      | some n =>
        rw [core_event_of_some taken]
        exact back taken allowed.1 h
    | meanwhile patience files lineSources redraws => exact ih allowed h

lemma forall_prefix_cons {α : Type} {P : List α → Prop} {a : α} {as : List α} :
    (∀ front, front <+: a :: as → P front) ↔
      P [] ∧ ∀ front, front <+: as → P (a :: front) := by
  constructor
  · intro all
    exact ⟨all [] List.nil_prefix, fun front h => all _ (List.cons_prefix_cons.2 ⟨rfl, h⟩)⟩
  · rintro ⟨first, rest⟩ front h
    rcases List.prefix_cons_iff.1 h with rfl | ⟨front, rfl, h'⟩
    · exact first
    · exact rest front h'

/-- What an invariant implies holds at every moment of a run just when no event of the run breaks it:
an event that does not break it keeps the invariant, and after one that does it no longer holds. -/
theorem forall_after_iff (P Inv : Session ε → Prop) {Breaks : Session ε → Event → Prop}
    (holds : ∀ s, Inv s → P s)
    (meanwhile : ∀ s patience files lineSources redraws, Inv s →
      Inv (s.happen (.meanwhile patience files lineSources redraws)))
    (keeps : ∀ s e now, Inv s → ¬ Breaks s e → Inv (s.happen (.event e now)))
    (breaks : ∀ s e now, Inv s → Breaks s e → ¬ P (s.happen (.event e now)))
    {s : Session ε} (h : Inv s) (run : List Happening) :
    (∀ front, front <+: run → P (s.after front)) ↔ Throughout (fun s e => ¬ Breaks s e) s run := by
  induction run generalizing s with
  | nil =>
    refine iff_of_true ?_ trivial
    intro front nil
    rw [List.prefix_nil.1 nil]
    exact holds s h
  | cons happening run ih =>
    rw [forall_prefix_cons]
    have first : P (s.after []) := holds s h
    rw [and_iff_right first]
    cases happening with
    | meanwhile patience files lineSources redraws => exact ih (meanwhile s _ _ _ _ h)
    | event e now =>
      by_cases broken : Breaks s e
      · refine iff_of_false ?_ fun unbroken => unbroken.1 broken
        intro all
        exact breaks s e now h broken (all [] List.nil_prefix)
      · exact (ih (keeps s e now h broken)).trans (and_iff_right broken).symm

/-- No line is interrupted while an event takes lines back. -/
def ReplaysQuietly (s : Session ε) (e : Event) : Prop :=
  ∀ n ∈ s.takenBack? e, Replay.IsQuiet s.surroundings.env s.replayStart (s.earlier n)

instance decidableReplaysQuietly (s : Session ε) (e : Event) : Decidable (s.ReplaysQuietly e) :=
  inferInstanceAs (Decidable (∀ n ∈ s.takenBack? e, _))

end

/-- A session with a calculator in which nothing has been entered yet. -/
structure IsNew (s : Session Calculator) : Prop where
  fresh : s.evaluator.IsFresh
  buffer : s.buffer = []
  evaluated : s.evaluated = []

lemma isNew_of_core {s : Session Calculator} (fresh : s.core.evaluator.IsFresh)
    (buffer : s.core.buffer = []) (evaluated : s.core.evaluated = []) : s.IsNew :=
  ⟨fresh, buffer, evaluated⟩

/-- Every shell begins as a new session. -/
lemma isNew_shell_start (config : Config) (history : History) (port : Option Bytes)
    (surroundings : Surroundings) : (Shell.start config history port surroundings).IsNew := by
  have core := core_start { Shell.session config history surroundings with
    modules := Shell.modules config
    lineSources := if port.isSome then [.clients {}] else [] } (Shell.banner port)
  apply isNew_of_core <;> (unfold Shell.start; dsimp only; rw [core])
  · exact ⟨rfl, rfl, rfl⟩
  · rfl

end CalcShell.Session
