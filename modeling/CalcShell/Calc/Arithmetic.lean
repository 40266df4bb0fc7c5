import CalcShell.Calc.Error

/-!
Operators on values. Numbers and truth values mix freely; strings can be joined, repeated and
compared.
-/
namespace CalcShell
namespace Calc

namespace BinaryOp

/-- The operators on numbers. The remainder has the sign of the divisor. -/
def onNumbers (op : BinaryOp) (x y : Float) : Except CalcError Float :=
  match op with
  | .add => .ok (x + y)
  | .sub => .ok (x - y)
  | .mul => .ok (x * y)
  | .pow => .ok (x.pow y)
  | .div => if y == 0.0 then .error .divisionByZero else .ok (x / y)
  | .floorDiv => if y == 0.0 then .error .divisionByZero else .ok (x / y).floor
  | .mod => if y == 0.0 then .error .divisionByZero else .ok (x - y * (x / y).floor)

def repeated (text : Bytes) (count : Float) : Bytes :=
  Nat.repeat (text ++ ·) (Number.repetitions count) []

def apply (op : BinaryOp) (a b : Value) : Except CalcError Value :=
  match op, a, b with
  | .add, .string s, .string t => .ok (.string (s ++ t))
  | op, a, b =>
    match a.number?, b.number? with
    | some x, some y => (op.onNumbers x y).map .number
    | _, right =>
      match op, a, right with
      | .mul, .string s, some count => .ok (.string (repeated s count))
      | _, _, _ => .error (.operands op a.typeName b.typeName)

end BinaryOp

namespace CompareOp

def holds (op : CompareOp) (order : Ordering) : Bool :=
  match op with
  | .eq => order == .eq
  | .ne => order != .eq
  | .lt => order.isLT
  | .le => order.isLE
  | .gt => order.isGT
  | .ge => order.isGE

/-- Numbers that are neither less nor greater count as equal in the order, NaN among them. -/
def orderNumbers (x y : Float) : Ordering := if x < y then .lt else if y < x then .gt else .eq

def orderTexts (s t : Bytes) : Ordering := if s < t then .lt else if t < s then .gt else .eq

def apply (op : CompareOp) (a b : Value) : Except CalcError Bool :=
  match op with
  | .eq => .ok (a.equals b)
  | .ne => .ok !a.equals b
  | op =>
    match a.number?, b.number?, a, b with
    | some x, some y, _, _ => .ok (op.holds (orderNumbers x y))
    | _, _, .string s, .string t => .ok (op.holds (orderTexts s t))
    | _, _, _, _ => .error (.incomparable op a.typeName b.typeName)

end CompareOp

/-- A sign in front of a value. -/
def applySign (negative : Bool) (a : Value) : Except CalcError Value :=
  match a.number? with
  | some x => .ok (.number (if negative then -x else x))
  | none => .error (.signOperand negative a.typeName)

end Calc
end CalcShell
