import CalcShell.Calc.Arithmetic
import CalcShell.Calc.Machine
import CalcShell.Number.Read

/-!
The built-in functions. Each checks its arguments in a fixed order, which decides the error of a
call with several faults.
-/
namespace CalcShell
namespace Calc

inductive Builtin where
  | print | envGet | leave | len | abs | extreme (isMin : Bool) | round | str
  | convert (isInt : Bool) | help | sleep
deriving DecidableEq, Repr

namespace Builtin

def names : List (String × Builtin) :=
  [("print", .print), ("env.get", .envGet), ("exit", .leave), ("quit", .leave), ("len", .len),
   ("abs", .abs), ("min", .extreme true), ("max", .extreme false), ("round", .round),
   ("str", .str), ("int", .convert true), ("float", .convert false), ("help", .help),
   ("sleep", .sleep)]

def ofName? (name : Bytes) : Option Builtin := (names.find? (bytes ·.1 == name)).map (·.2)

end Builtin

inductive MathFunction where
  | sqrt | sin | cos | tan | exp | floor | ceil
deriving DecidableEq, Repr

namespace MathFunction

def names : List (String × MathFunction) :=
  [("sqrt", .sqrt), ("sin", .sin), ("cos", .cos), ("tan", .tan), ("exp", .exp), ("floor", .floor),
   ("ceil", .ceil)]

def ofName? (name : Bytes) : Option MathFunction := (names.find? (bytes ·.1 == name)).map (·.2)

def apply (f : MathFunction) (x : Float) : Except CalcError Float :=
  match f with
  | .sqrt => if x < 0.0 then .error .mathDomain else .ok x.sqrt
  | .sin => .ok x.sin
  | .cos => .ok x.cos
  | .tan => .ok x.tan
  | .exp => .ok x.exp
  | .floor => .ok x.floor
  | .ceil => .ok x.ceil

end MathFunction

namespace Call

/-- Refuses the first keyword argument, in byte order, that is not allowed. -/
def checkKeywords (name : Bytes) (keywords : Table Value) (allowed : List String) : Run Unit :=
  match keywords.keys.find? fun key => !(allowed.any (bytes · == key)) with
  | some key => Run.fail (.keyword name key)
  | none => pure ()

def checkArity (name : Bytes) (args : List Value) (least most : Nat) : Run Unit :=
  if least ≤ args.length && args.length ≤ most then pure ()
  else Run.fail (.arity name least most args.length)

def numberArg (name : Bytes) (value : Value) : Run Float :=
  match value.number? with
  | some x => pure x
  | none => Run.fail (.notNumber name value.typeName)

/-- The argument at a place that the arity check has found present. -/
def arg (args : List Value) (place : Nat) : Value := args[place]?.getD .none

/-- The text that a keyword argument of `print` sets, unless it is missing or `None`. -/
def separator (keywords : Table Value) (name : String) (standard : String) : Run Bytes :=
  match keywords.find? (bytes name) with
  | none | some .none => pure (bytes standard)
  | some (.string text) => pure text
  | some value => Run.fail (.separator (bytes name) value.typeName)

def print (args : List Value) (keywords : Table Value) : Run Value := do
  checkKeywords (bytes "print") keywords ["sep", "end"]
  let final ← separator keywords "end" "\n"
  let sep ← separator keywords "sep" " "
  Run.emit (sep.intercalate (args.map Value.str) ++ final)
  pure .none

def envGet (name : Bytes) (args : List Value) : Run Value := do
  checkArity name args 1 2
  match arg args 0 with
  | .string key =>
    match (← get).env.get? key with
    | some text => pure (.string text)
    | none => pure (arg args 1)
  | _ => Run.fail .variableName

/-- The smaller or larger of two values; of equal ones the first. -/
def better (isMin : Bool) (best value : Value) : Run Value := do
  let less ← Run.ofExcept (CompareOp.lt.apply value best)
  pure (if less == isMin && !value.equals best then value else best)

def extreme (name : Bytes) (isMin : Bool) : List Value → Run Value
  | [] => Run.fail (.noArgument name)
  | first :: rest => rest.foldlM (better isMin) first

def round (name : Bytes) (args : List Value) : Run Value := do
  checkArity name args 1 2
  let x ← numberArg name (arg args 0)
  let digits ← match args[1]? with
    | some value => numberArg name value
    | none => pure 0.0
  let scale := Float.pow 10.0 digits.floor
  pure (.number (Number.roundHalfEven (x * scale) / scale))

def convert (name : Bytes) (isInt : Bool) (args : List Value) : Run Value := do
  checkArity name args 0 1
  let finish (x : Float) : Run Value :=
    pure (.number (if isInt then Number.truncate x else x))
  match args[0]? with
  | none => pure (.number 0.0)
  | some value =>
    match value.number?, value with
    | some x, _ => finish x
    | none, .string text =>
      match Number.read? text with
      | some x =>
        if isInt && !(x == Number.truncate x) then Run.fail (.badInt value.repr) else finish x
      | none => Run.fail (if isInt then .badInt value.repr else .badFloat value.repr)
    | none, _ => Run.fail (.inconvertible name value.typeName)

/-- The documentation that `help` shows; it may be empty. -/
def documentation (names : Names) : Value → Bytes
  | .function name => ((names.qualified? name).map (·.doc)).getD []
  | .module name =>
    match names.module? name with
    | some module => module.doc ++ module.members.keys.flatMap (bytes "\n  " ++ ·)
    | none => []
  | .none => bytes "Type help(name) for the documentation of a function or module."
  | _ => []

def help (target : Value) : Run Value := do
  let doc := documentation (← get).names target
  let text := if doc.isEmpty then
      bytes "No documentation for '" ++ bytes target.typeName ++ bytes "'."
    else doc
  Run.emit (text ++ [Ascii.newline])
  pure .none

/-- The longest wait between two checks for an interrupt, in nanoseconds. -/
def longestWait : Nat := 10000000

/-- The least that the clock shows, in nanoseconds. -/
def clockReading : Int := 100000000000000

/-- How long a sleep lasts, in nanoseconds. One whose end the clock cannot show is over at once. -/
def sleepTime (seconds : Float) : Nat :=
  (Number.wrapTime (clockReading + Number.nanoseconds seconds) - clockReading).toNat

/-- One check at the start and one after each wait. -/
def waits : Nat → Run Unit
  | 0 => Run.checkInterrupt
  | n + 1 => do
    Run.checkInterrupt
    waits n

def sleep (name : Bytes) (args : List Value) : Run Value := do
  checkArity name args 1 1
  let seconds ← numberArg name (arg args 0)
  if seconds < 0.0 then Run.fail .negativeSleep
  waits ((sleepTime seconds + longestWait - 1) / longestWait)
  pure .none

def len (name : Bytes) (args : List Value) : Run Value := do
  checkArity name args 1 1
  match arg args 0 with
  | .string text => pure (.number (Utf8.width text).toFloat)
  | value => Run.fail (.noLength value.typeName)

/-- A call of a function that is not in the module `math`. -/
def builtin (name : Bytes) (call : CallArgs) : Run Value := do
  let args := call.positional
  let function := Builtin.ofName? name
  if function != some .print then checkKeywords name call.keywords []
  match function with
  | some .print => print args call.keywords
  | some .envGet => envGet name args
  | some .leave => do
    checkArity name args 0 1
    throw .exit
  | some .len => len name args
  | some .abs => do
    checkArity name args 1 1
    return .number (← numberArg name (arg args 0)).abs
  | some (.extreme isMin) => extreme name isMin args
  | some .round => round name args
  | some .str => do
    checkArity name args 0 1
    return .string ((args[0]?.map Value.str).getD [])
  | some (.convert isInt) => convert name isInt args
  | some .help => do
    checkArity name args 0 1
    help (arg args 0)
  | some .sleep => sleep name args
  | none => Run.fail (.nameUndefined name)

def log (name : Bytes) (args : List Value) : Run Value := do
  checkArity name args 1 2
  let x ← numberArg name (arg args 0)
  if x ≤ 0.0 then Run.fail .mathDomain
  match args[1]? with
  | none => return .number x.log
  | some value => do
    let base ← numberArg name value
    if base ≤ 0.0 || base == 1.0 then Run.fail .mathDomain
    return .number (x.log / base.log)

/-- A call of a function in the module `math`, by its name there. -/
def math (name : Bytes) (call : CallArgs) : Run Value := do
  let args := call.positional
  checkKeywords name call.keywords []
  if name = bytes "log" then log name args
  else
    checkArity name args 1 1
    let x ← numberArg name (arg args 0)
    match MathFunction.ofName? name with
    | some f => return .number (← Run.ofExcept (f.apply x))
    | none => Run.fail (.moduleAttribute (bytes "math") name)

end Call

/-- A call of any value. -/
def callValue (callee : Value) (call : CallArgs) : Run Value :=
  match callee with
  | .function name =>
    if (bytes "math.").isPrefixOf name then Call.math (name.drop 5) call
    else Call.builtin name call
  | value => Run.fail (.notCallable value.typeName)

/-- What a hook gives for a name. Only tables count their calls. -/
def askHook (hook : Hook) (member : Bytes) : Run (Option Value) := do
  match hook with
  | .environment => return ((← get).env.get? member).map .string
  | .values table =>
    modify fun m => { m with hookCalls := m.hookCalls + 1 }
    return table.find? member

/-- A member of a module or, if it has none of the name, what its hook gives. -/
def moduleAttribute (module : Module) (member : Bytes) : Run (Option Value) :=
  match module.members.find? member, module.hook with
  | some symbol, _ => pure (some symbol.value)
  | none, some hook => askHook hook member
  | none, none => pure none

def getAttribute (owner : Value) (member : Bytes) : Run Value :=
  match owner with
  | .module name => do
    let found ← match (← get).names.module? name with
      | some module => moduleAttribute module member
      | none => pure none
    match found with
    | some value => pure value
    | none => Run.fail (.moduleAttribute name member)
  | value => Run.fail (.attribute value.typeName member)

end Calc
end CalcShell
