import CalcShell.Calc.Evaluator
import Mathlib.Tactic.Lemma

/-! What evaluation is composed of. There are few things that it does, and a property of actions that
each of them has and that goes over to one action after the other holds of all evaluation. -/
namespace CalcShell.Calc.Run

variable {α β : Type}

abbrev End (α : Type) := EStateM.Result Stop Machine α

/-- The machine at the end of an action. -/
def End.machine : End α → Machine
  | .ok _ m => m
  | .error _ m => m

def IsInterrupted (r : End α) : Prop := ∃ m, r = .error .interrupted m

lemma run_checkInterrupt (m : Machine) : Run.checkInterrupt.run m =
    if m.patience.check.1 then .error .interrupted { m with patience := m.patience.check.2 }
    else .ok () { m with patience := m.patience.check.2 } := by
  unfold Run.checkInterrupt
  rw [EStateM.run_bind, EStateM.run_get]
  dsimp only
  rw [EStateM.run_bind, EStateM.run_set]
  dsimp only
  split <;> rfl

lemma run_reporting (action : Run Unit) (m : Machine) : (reporting action).run m =
    match action.run m with
    | .error (.failed e) m' => (Run.emit (e.message ++ [Ascii.newline]) true).run m'
    | r => r := by
  simp only [Calc.reporting, tryCatch, tryCatchThe, MonadExceptOf.tryCatch, EStateM.run]
  delta EStateM.tryCatch
  dsimp only
  cases action m with
  | ok => rfl
  | error stop m' => cases stop <;> rfl

/-! ### Composed actions -/

/-- What evaluation does: it fails or exits, looks at the names and the environment, writes text that is
no error, gives names values, asks hooks, looks for interrupts, and does one thing after the other. -/
inductive Composed : {α : Type} → Run α → Prop
  | pure {α : Type} (a : α) : Composed (Pure.pure a)
  | throw {α : Type} {stop : Stop} (calm : stop ≠ .interrupted) :
    Composed (MonadExcept.throw stop : Run α)
  | bind {α β : Type} {action : Run α} {next : α → Run β} (first : Composed action)
    (rest : ∀ a, Composed (next a)) : Composed (action >>= next)
  | read {β : Type} {next : Machine → Run β}
    (blind : ∀ m m' : Machine, m.names = m'.names → m.env = m'.env → next m = next m')
    (rest : ∀ m, Composed (next m)) : Composed (get >>= next)
  | emit (text : Bytes) : Composed (Run.emit text)
  | assign (name : Bytes) (value : Value) : Composed (Run.assign name value)
  | askHook : Composed (modify fun m => { m with hookCalls := m.hookCalls + 1 })
  | checkInterrupt : Composed Run.checkInterrupt

namespace Composed

lemma fail (e : CalcError) : Composed (Run.fail e : Run α) := .throw (by simp)

lemma ofExcept (r : Except CalcError α) : Composed (Run.ofExcept r) := by
  cases r with
  | ok a => exact .pure a
  | error e => exact .fail e

lemma ite {c : Prop} [Decidable c] {yes no : Run α} (hy : Composed yes) (hn : Composed no) :
    Composed (if c then yes else no) := by
  split
  · exact hy
  · exact hn

lemma foldlM {step : β → α → Run β} (h : ∀ b a, Composed (step b a)) (as : List α) (b : β) :
    Composed (as.foldlM step b) := by
  induction as generalizing b with
  | nil => exact .pure b
  | cons a as ih =>
    rw [List.foldlM_cons]
    exact .bind (h b a) fun b => ih b

lemma forM {step : α → Run Unit} (h : ∀ a, Composed (step a)) (as : List α) :
    Composed (as.forM step) := by
  induction as with
  | nil => exact .pure ()
  | cons a as ih => exact .bind (h a) fun _ => ih

lemma repeatRun {body : Run Unit} (h : Composed body) (n : Nat) : Composed (repeatRun body n) := by
  induction n with
  | zero => exact .pure ()
  | succ n ih => exact .bind h fun _ => ih

end Composed
end CalcShell.Calc.Run
