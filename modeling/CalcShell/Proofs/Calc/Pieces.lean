import CalcShell.Proofs.Calc.Evaluation

/-! What evaluation writes. It adds to what was written before, whatever that was, and adds no
errors: those are written by who reports them. -/
namespace CalcShell.Calc

/-- The machine with pieces written before its own. -/
def Machine.onto (m : Machine) (before : List Piece) : Machine :=
  { m with written := m.written ++ before }

namespace Run

variable {α β : Type} {action : Run α}

def End.onto : End α → List Piece → End α
  | .ok a m, before => .ok a (m.onto before)
  | .error stop m, before => .error stop (m.onto before)

/-- What was written before stays, and does not matter. -/
def Frames (action : Run α) : Prop :=
  ∀ m before, action.run (m.onto before) = End.onto (action.run m) before

/-- Nothing that an action writes is an error. -/
def IsQuiet (action : Run α) : Prop :=
  ∀ m, ∀ piece ∈ (End.machine (action.run m)).written, piece ∈ m.written ∨ piece.isError = false

lemma Frames.bind {next : α → Run β} (first : Frames action) (rest : ∀ a, Frames (next a)) :
    Frames (action >>= next) := by
  intro m before
  rw [EStateM.run_bind, EStateM.run_bind, first m before]
  generalize action.run m = r
  cases r with
  | ok a m₁ => exact rest a m₁ before
  | error stop m₁ => rfl

lemma IsQuiet.bind {next : α → Run β} (first : IsQuiet action) (rest : ∀ a, IsQuiet (next a)) :
    IsQuiet (action >>= next) := by
  intro m piece mem
  rw [EStateM.run_bind] at mem
  have before := first m piece
  generalize action.run m = r at before mem
  cases r with
  | ok a m₁ =>
    rcases rest a m₁ piece mem with old | quiet
    · exact before old
    · exact .inr quiet
  | error stop m₁ => exact before mem

lemma frames_checkInterrupt : Frames Run.checkInterrupt := by
  intro m before
  rw [run_checkInterrupt, run_checkInterrupt, Machine.onto]
  split <;> rfl

lemma isQuiet_checkInterrupt : IsQuiet Run.checkInterrupt := by
  intro m piece mem
  rw [run_checkInterrupt] at mem
  split at mem <;> exact .inl mem

theorem Composed.frames (composed : Composed action) : Frames action := by
  induction composed with
  | pure | throw | emit | assign | askHook => intro m before; rfl
  | bind _ _ first rest => exact first.bind rest
  | @read β next blind _ rest =>
    intro m before
    change (next (m.onto before)).run (m.onto before) = End.onto ((next m).run m) before
    rw [blind (m.onto before) m rfl rfl, rest m m before]
  | checkInterrupt => exact frames_checkInterrupt

theorem Composed.isQuiet (composed : Composed action) : IsQuiet action := by
  induction composed with
  | pure | throw | assign | askHook => exact fun m piece mem => .inl mem
  | bind _ _ first rest => exact first.bind rest
  | read _ _ rest => exact fun m => rest m m
  | emit text =>
    intro m piece mem
    rcases List.mem_cons.1 mem with rfl | old
    · exact .inr rfl
    · exact .inl old
  | checkInterrupt => exact isQuiet_checkInterrupt

/-- Reporting an error, too, only adds to what was written before. -/
lemma Frames.reporting {action : Run Unit} (frames : Frames action) : Frames (reporting action) := by
  intro m before
  rw [run_reporting, run_reporting, frames m before]
  generalize action.run m = r
  rcases r with ⟨_, m₁⟩ | ⟨_ | _ | _, m₁⟩ <;> rfl

end Run
end CalcShell.Calc
