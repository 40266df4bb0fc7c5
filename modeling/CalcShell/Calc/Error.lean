import CalcShell.Calc.Tree

/-!
What can go wrong when a line is evaluated, and the line that reports it.
-/
namespace CalcShell
namespace Calc

/-- Types are given by their names. -/
inductive CalcError where
  | malformed (m : Mistake)
  | nameUndefined (name : Bytes)
  | moduleNotFound (name : Bytes)
  | moduleAttribute (module member : Bytes)
  | attribute (type : String) (member : Bytes)
  | notCallable (type : String)
  | divisionByZero
  | operands (op : BinaryOp) (left right : String)
  | incomparable (op : CompareOp) (left right : String)
  | signOperand (negative : Bool) (type : String)
  | arity (function : Bytes) (least most given : Nat)
  | keyword (function name : Bytes)
  | notNumber (function : Bytes) (type : String)
  | separator (name : Bytes) (type : String)
  | variableName
  | noLength (type : String)
  | noArgument (function : Bytes)
  | badInt (literal : Bytes)
  | badFloat (literal : Bytes)
  | inconvertible (function : Bytes) (type : String)
  | negativeSleep
  | mathDomain
  | repeatCount (type : String)
deriving DecidableEq, Repr

namespace CalcError

def mistakeText : Mistake → String
  | .invalid => "invalid syntax"
  | .unterminatedString => "unterminated string literal"
  | .positionalAfterKeyword => "positional argument follows keyword argument"

def quoted (text : Bytes) : Bytes := bytes "'" ++ text ++ bytes "'"

/-- How many arguments are expected. -/
def expected (least most : Nat) : Bytes :=
  if least = most then .ofNat least
  else bytes "from " ++ .ofNat least ++ bytes " to " ++ .ofNat most

def wording : CalcError → Bytes
  | .malformed m => bytes "SyntaxError: " ++ bytes (mistakeText m)
  | .nameUndefined name => bytes "NameError: name " ++ quoted name ++ bytes " is not defined"
  | .moduleNotFound name => bytes "ModuleNotFoundError: No module named " ++ quoted name
  | .moduleAttribute module member =>
    bytes "AttributeError: module " ++ quoted module ++ bytes " has no attribute " ++ quoted member
  | .attribute type member =>
    bytes "AttributeError: " ++ quoted (bytes type) ++ bytes " object has no attribute " ++
      quoted member
  | .notCallable type => bytes "TypeError: " ++ quoted (bytes type) ++ bytes " object is not callable"
  | .divisionByZero => bytes "ZeroDivisionError: division by zero"
  | .operands op left right =>
    bytes "TypeError: unsupported operand type(s) for " ++ bytes op.symbol ++ bytes ": " ++
      quoted (bytes left) ++ bytes " and " ++ quoted (bytes right)
  | .incomparable op left right =>
    bytes "TypeError: " ++ quoted (bytes op.symbol) ++
      bytes " not supported between instances of " ++ quoted (bytes left) ++ bytes " and " ++
      quoted (bytes right)
  | .signOperand negative type =>
    bytes "TypeError: bad operand type for unary " ++ bytes (if negative then "-" else "+") ++
      bytes ": " ++ quoted (bytes type)
  | .arity function least most given =>
    bytes "TypeError: " ++ function ++ bytes "() takes " ++ expected least most ++
      bytes " positional arguments but " ++ .ofNat given ++ bytes " were given"
  | .keyword function name =>
    bytes "TypeError: " ++ function ++ bytes "() got an unexpected keyword argument " ++ quoted name
  | .notNumber function type =>
    bytes "TypeError: " ++ function ++ bytes "() argument must be a number, not " ++
      quoted (bytes type)
  | .separator name type =>
    bytes "TypeError: " ++ name ++ bytes " must be None or a string, not " ++ bytes type
  | .variableName => bytes "TypeError: get() argument must be str"
  | .noLength type => bytes "TypeError: object of type " ++ quoted (bytes type) ++ bytes " has no len()"
  | .noArgument function =>
    bytes "TypeError: " ++ function ++ bytes " expected at least 1 argument, got 0"
  | .badInt literal => bytes "ValueError: invalid literal for int() with base 10: " ++ literal
  | .badFloat literal => bytes "ValueError: could not convert string to float: " ++ literal
  | .inconvertible function type =>
    bytes "TypeError: " ++ function ++ bytes "() argument must be a string or a number, not " ++
      quoted (bytes type)
  | .negativeSleep => bytes "ValueError: sleep length must be non-negative"
  | .mathDomain => bytes "ValueError: math domain error"
  | .repeatCount type =>
    bytes "TypeError: repeat count must be a number, not " ++ quoted (bytes type)

/-- The line that reports an error; a NUL byte in a quoted text ends it. -/
def message (e : CalcError) : Bytes := e.wording.untilNul

end CalcError
end Calc
end CalcShell
