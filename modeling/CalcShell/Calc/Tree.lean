import CalcShell.Calc.Value

/-!
Expressions and statements as trees. A line with a mistake has a tree as well: the mistake stands
in it at its place, so that everything before it still takes effect.
-/
namespace CalcShell
namespace Calc

inductive Mistake where
  | invalid
  | unterminatedString
  | positionalAfterKeyword
deriving DecidableEq, Repr

inductive BinaryOp where
  | add | sub | mul | div | floorDiv | mod | pow
deriving DecidableEq, Repr

namespace BinaryOp

def symbol : BinaryOp → String
  | .add => "+"
  | .sub => "-"
  | .mul => "*"
  | .div => "/"
  | .floorDiv => "//"
  | .mod => "%"
  | .pow => "**"

end BinaryOp

inductive CompareOp where
  | eq | ne | lt | le | gt | ge
deriving DecidableEq, Repr

namespace CompareOp

def symbol : CompareOp → String
  | .eq => "=="
  | .ne => "!="
  | .lt => "<"
  | .le => "<="
  | .gt => ">"
  | .ge => ">="

def all : List CompareOp := [.eq, .ne, .lt, .le, .gt, .ge]

end CompareOp

mutual

inductive Expr where
  | literal (value : Value)
  | name (name : Bytes)
  | attribute (owner : Expr) (member : Bytes)
  | call (callee : Expr) (args : Args)
  | sign (negative : Bool) (operand : Expr)
  | binary (op : BinaryOp) (left right : Expr)
  | compare (op : CompareOp) (left right : Expr)
  | not (operand : Expr)
  | and (left right : Expr)
  | or (left right : Expr)
  /-- Nothing but a mistake. -/
  | mistake (m : Mistake)
  /-- A mistake right behind an expression. -/
  | broken (before : Expr) (m : Mistake)

/-- The arguments of a call up to the closing bracket or a mistake. -/
inductive Args where
  | closed
  | mistake (m : Mistake)
  | positional (value : Expr) (rest : Args)
  | keyword (name : Bytes) (value : Expr) (rest : Args)

end

instance : Inhabited Expr := ⟨.mistake .invalid⟩

inductive Statement where
  | empty
  | importModule (name : Bytes)
  | assign (name : Bytes) (value : Expr)
  | echo (value : Expr)
  | mistake (m : Mistake)

end Calc
end CalcShell
