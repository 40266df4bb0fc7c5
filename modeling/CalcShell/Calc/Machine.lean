import CalcShell.Calc.Error
import CalcShell.Calc.Names
import CalcShell.Evaluation

/-!
The state in which expressions are evaluated, and the three ways in which evaluation stops early.
Whatever happened before the stop stays in the state.
-/
namespace CalcShell
namespace Calc

structure Machine where
  names : Names
  env : Environment
  patience : Patience := {}
  /-- What was written, the newest piece first. -/
  written : List Piece := []
  /-- How often tables of further attributes were asked. -/
  hookCalls : Nat := 0

inductive Stop where
  | failed (e : CalcError)
  | exit
  | interrupted
deriving DecidableEq, Repr

abbrev Run := EStateM Stop Machine

namespace Run

def fail {α : Type} (e : CalcError) : Run α := throw (.failed e)

def emit (text : Bytes) (isError : Bool := false) : Run Unit :=
  modify fun m => { m with written := { text, isError } :: m.written }

def assign (name : Bytes) (value : Value) : Run Unit :=
  modify fun m => { m with names := m.names.assign name value }

/-- Stops if the user's interrupt is there. -/
def checkInterrupt : Run Unit := do
  let m ← get
  let (isHere, patience) := m.patience.check
  set { m with patience }
  if isHere then throw .interrupted

def ofExcept {α : Type} : Except CalcError α → Run α
  | .ok a => pure a
  | .error e => fail e

end Run

/-- What a call passes to a function. Of several keyword arguments of one name the last counts. -/
structure CallArgs where
  positional : List Value := []
  keywords : Table Value := .empty

end Calc
end CalcShell
