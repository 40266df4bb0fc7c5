import CalcShell.Environment

/-!
What the shell asks of an evaluator: to take one more line, and to forget everything. The answer to
a line says what came of it, what was written meanwhile, piece by piece, and how the evaluator
goes on.
-/
namespace CalcShell

/-- Text written while a line is evaluated. -/
structure Piece where
  text : Bytes
  isError : Bool := false
deriving DecidableEq, Repr

/-- When the user interrupts. -/
structure Patience where
  /-- How many more checks come before the one at which the user interrupts and, for each time that
  the user interrupts again, how many come in between. -/
  quiet : List Nat := []
  /-- The user has interrupted, and nobody has dealt with it. -/
  isOver : Bool := false
deriving DecidableEq, Repr, Inhabited

namespace Patience

/-- One check. An interrupt is reported at every check until somebody deals with it. -/
def check (p : Patience) : Bool × Patience :=
  match p.quiet with
  | [] => (p.isOver, p)
  | 0 :: later => (true, ⟨later, true⟩)
  | (n + 1) :: later => (p.isOver, ⟨n :: later, p.isOver⟩)

/-- The user interrupts at the `n`-th check; never for zero. -/
def atCheck (n : Nat) : Patience := { quiet := if n = 0 then [] else [n - 1] }

/-- Forgets an interrupt that was not dealt with. -/
def clear (p : Patience) : Patience := { p with isOver := false }

@[simp] theorem check_atCheck_zero : (atCheck 0).check = (false, atCheck 0) := rfl

@[simp] theorem check_atCheck_one : (atCheck 1).check = (true, ⟨[], true⟩) := rfl

@[simp] theorem isOver_clear (p : Patience) : p.clear.isOver = false := rfl

end Patience

inductive Outcome where
  /-- The line is done. `more` asks for another line of the same statement, with an indentation. -/
  | finished (more : Bool) (indent : Nat)
  | exit
  | interrupted
  /-- The evaluator itself failed. -/
  | failed (message : Bytes)
deriving DecidableEq, Repr

/-- Whether another line of the same statement is asked for. -/
def Outcome.asksMore : Outcome → Bool
  | .finished more _ => more
  | _ => false

structure Submission (ε : Type) where
  outcome : Outcome
  pieces : List Piece
  next : ε
  patience : Patience

class Evaluator (ε : Type) where
  submit : ε → Environment → Patience → Bytes → Submission ε
  /-- Forgets every binding and any unfinished statement. -/
  reset : ε → ε

namespace Piece

/-- The texts of one kind, joined. -/
def joined (isError : Bool) (pieces : List Piece) : Bytes :=
  (pieces.filter (·.isError == isError)).flatMap (·.text)

end Piece
end CalcShell
