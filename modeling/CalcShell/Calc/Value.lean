import CalcShell.Number.Written
import CalcShell.Number.Real
import CalcShell.Text.Utf8

/-!
Values of the calculator language and their two texts: the echoed form, in which strings are
quoted, and the printed form.
-/
namespace CalcShell
namespace Calc

/-- Functions and modules are known by their qualified names. -/
inductive Value where
  | none
  | bool (b : Bool)
  | number (x : Float)
  | string (text : Bytes)
  | function (name : Bytes)
  | module (name : Bytes)
deriving Repr, Inhabited

namespace Value

/-- The number of a numeric value; truth values count as one and zero. -/
def number? : Value → Option Float
  | .bool b => some (if b then 1.0 else 0.0)
  | .number x => some x
  | _ => Option.none

def isNone : Value → Bool
  | .none => true
  | _ => false

def isTruthy : Value → Bool
  | .none => false
  | .bool b => b
  | .number x => x != 0.0
  | .string text => !text.isEmpty
  | .function _ | .module _ => true

def typeName : Value → String
  | .none => "NoneType"
  | .bool _ => "bool"
  | .number x => if Number.isInteger x then "int" else "float"
  | .string _ => "str"
  | .function _ => "builtin_function"
  | .module _ => "module"

/-- The form that is printed. -/
def str : Value → Bytes
  | .none => bytes "None"
  | .bool b => bytes (if b then "True" else "False")
  | .number x => Number.text x
  | .string text => text
  | .function name => bytes "<built-in function " ++ name ++ bytes ">"
  | .module name => bytes "<module '" ++ name ++ bytes "'>"

/-- A byte as it is written inside single quotes. -/
def quoteByte (b : UInt8) : Bytes :=
  if b = Ascii.singleQuote then [Ascii.backslash, Ascii.singleQuote]
  else if b = Ascii.backslash then [Ascii.backslash, Ascii.backslash]
  else if b = Ascii.newline then [Ascii.backslash, Ascii.code 'n']
  else if b = Ascii.tab then [Ascii.backslash, Ascii.code 't']
  else [b]

def quoted (text : Bytes) : Bytes :=
  [Ascii.singleQuote] ++ text.flatMap quoteByte ++ [Ascii.singleQuote]

/-- The form that is echoed. -/
def repr : Value → Bytes
  | .string text => quoted text
  | value => value.str

/-- Numbers are equal by value, whatever their kinds; everything else by kind and text. -/
def equals (a b : Value) : Bool :=
  match a.number?, b.number? with
  | some x, some y => x == y
  | _, _ =>
    match a, b with
    | .none, .none => true
    | .string s, .string t => s == t
    | .function s, .function t => s == t
    | .module s, .module t => s == t
    | _, _ => false

end Value

/-- The byte that a backslash and `b` stand for in a string literal. -/
def unescape (b : UInt8) : UInt8 :=
  if b = Ascii.code 'n' then Ascii.newline
  else if b = Ascii.code 't' then Ascii.tab
  else b

/-- The text between the quotes of a literal; a backslash at its very end stands for itself. -/
def unescapeAll : Bytes → Bytes
  | 0x5C :: b :: rest => unescape b :: unescapeAll rest
  | b :: rest => b :: unescapeAll rest
  | [] => []

/-- The string that a literal writes, if it ends in the quote that it begins with. -/
def unquote? (literal : Bytes) : Option Bytes :=
  match literal with
  | quote :: body =>
    if body.getLast? = some quote then some (unescapeAll body.dropLast) else none
  | [] => none

end Calc
end CalcShell
