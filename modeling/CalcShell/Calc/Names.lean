import CalcShell.Calc.Token
import CalcShell.Calc.Value
import CalcShell.Completion.Symbols
import CalcShell.Text.Table

/-!
The names that a calculator line can use: built-in functions, modules with their members, and what
the user assigned. The user's names come before the others.
-/
namespace CalcShell
namespace Calc

structure Symbol where
  value : Value
  doc : Bytes := []
  signature : Option Signature := none
deriving Repr, Inhabited

namespace Symbol

def isCallable (symbol : Symbol) : Bool :=
  match symbol.value with
  | .function _ => true
  | _ => false

end Symbol

/-- Where a module finds attributes that are no members of its own. -/
inductive Hook where
  /-- The variables of the environment. -/
  | environment
  /-- A table of values. -/
  | values (table : Table Value)

structure Module where
  doc : Bytes := []
  members : Table Symbol := .empty
  hook : Option Hook := none

structure Names where
  builtins : Table Symbol := .empty
  modules : Table Module := .empty
  user : Table Value := .empty

namespace Symbol

/-- A description of the symbol beside a list of candidates. -/
def describe (candidates : List Bytes) : Option Symbol → SymbolInfo
  | some symbol =>
    { candidates
      isCallable := symbol.isCallable
      signature := symbol.signature
      doc := if symbol.doc.isEmpty then none else some symbol.doc }
  | none => { candidates }

end Symbol

namespace Names

def global? (names : Names) (name : Bytes) : Option Symbol :=
  match names.user.find? name with
  | some value => some { value }
  | none => names.builtins.find? name

def module? (names : Names) (name : Bytes) : Option Module := names.modules.find? name

/-- A name with a dot means a member of the module before its first dot. -/
def qualified? (names : Names) (name : Bytes) : Option Symbol :=
  match name.cutFirst? (Ascii.code '.') with
  | none => names.global? name
  | some (owner, member) => (names.module? owner).bind (·.members.find? member)

def assign (names : Names) (name : Bytes) (value : Value) : Names :=
  { names with user := names.user.insert name value }

def addBuiltin (names : Names) (name : Bytes) (symbol : Symbol) : Names :=
  { names with builtins := names.builtins.insert name symbol }

def addModule (names : Names) (name : Bytes) (module : Module) : Names :=
  { names with
    modules := names.modules.insert name module
    builtins := names.builtins.insert name { value := .module name, doc := module.doc } }

/-- Keywords and global names, in byte order. -/
def all (names : Names) : List Bytes :=
  (Table.ofList ((Token.keywords ++ names.builtins.keys ++ names.user.keys).map (·, ()))).keys

/-- Looks a text up without running any hook. Behind the last dot it names a member. -/
def lookup (names : Names) (text : Bytes) : SymbolInfo :=
  match text.cutLast? (Ascii.code '.') with
  | none => Symbol.describe (names.all.filter text.isPrefixOf) (names.global? text)
  | some (head, tail) =>
    match names.global? head with
    | some { value := .module name, .. } =>
      match names.module? name with
      | some module =>
        Symbol.describe
          ((module.members.keys.filter tail.isPrefixOf).map (head ++ [Ascii.code '.'] ++ ·))
          (module.members.find? tail)
      | none => {}
    | _ => {}

end Names

namespace Builtin

def function (qualified : String) (signature : Signature) (doc : String) : Symbol :=
  { value := .function (bytes qualified), doc := bytes doc, signature := some signature }

def signature (name : String) (args : List String) (defaults : List String := [])
    (varargs : String := "") : Signature :=
  { name := bytes name, args := args.map bytes, defaults := defaults.map bytes
    varargs := bytes varargs }

def printSignature : Signature :=
  { signature "print" [] [] "values" with
    kwonly := [bytes "sep", bytes "end"]
    kwonlyDefaults := [(bytes "end", bytes "'\\n'"), (bytes "sep", bytes "' '")] }

def functions : List (String × Symbol) :=
  [("print", function "print" printSignature
      "print(*values, sep=' ', end='\\n')\n\nPrints the values separated by sep and followed by end."),
   ("len", function "len" (signature "len" ["obj"])
      "Return the number of characters of a string."),
   ("abs", function "abs" (signature "abs" ["x"])
      "Return the absolute value of the argument."),
   ("min", function "min" (signature "min" [] [] "args") "Return the smallest argument."),
   ("max", function "max" (signature "max" [] [] "args") "Return the largest argument."),
   ("round", function "round" (signature "round" ["number", "ndigits"] ["0"])
      "Round a number to a given precision in decimal digits. Halves round to even."),
   ("str", function "str" (signature "str" ["obj"] ["''"])
      "Return the printable form of an object."),
   ("int", function "int" (signature "int" ["x"] ["0"])
      "Convert a number or string to an integer, truncating towards zero."),
   ("float", function "float" (signature "float" ["x"] ["0"])
      "Convert a string or number to a number."),
   ("help", function "help" (signature "help" ["obj"] ["None"])
      "Show the documentation of an object."),
   ("sleep", function "sleep" (signature "sleep" ["seconds"])
      "Wait for the given number of seconds. Ctrl-C interrupts the wait."),
   ("exit", function "exit" (signature "exit" []) "Leave the interpreter."),
   ("quit", function "quit" (signature "quit" []) "Leave the interpreter.")]

def constant (x : Float) (doc : String) : Symbol := { value := .number x, doc := bytes doc }

def mathMembers : List (String × Symbol) :=
  [("pi", constant 3.141592653589793 "The ratio of a circle's circumference to its diameter."),
   ("e", constant 2.718281828459045 "Euler's number."),
   ("tau", constant 6.283185307179586 "2 * pi."),
   ("sqrt", function "math.sqrt" (signature "sqrt" ["x"]) "Return the square root of x."),
   ("sin", function "math.sin" (signature "sin" ["x"])
      "Return the sine of x (measured in radians)."),
   ("cos", function "math.cos" (signature "cos" ["x"])
      "Return the cosine of x (measured in radians)."),
   ("tan", function "math.tan" (signature "tan" ["x"])
      "Return the tangent of x (measured in radians)."),
   ("exp", function "math.exp" (signature "exp" ["x"]) "Return e raised to the power of x."),
   ("log", function "math.log" (signature "log" ["x", "base"] ["math.e"])
      "Return the logarithm of x to the given base."),
   ("floor", function "math.floor" (signature "floor" ["x"]) "Return the largest integer <= x."),
   ("ceil", function "math.ceil" (signature "ceil" ["x"]) "Return the smallest integer >= x.")]

def table (entries : List (String × Symbol)) : Table Symbol :=
  .ofList (entries.map fun (name, symbol) => (bytes name, symbol))

def math : Module :=
  { doc := bytes "Mathematical functions and constants.", members := table mathMembers }

def env : Module :=
  { doc := bytes "Process environment. env.NAME reads the variable NAME."
    members := table [("get", function "env.get" (signature "get" ["name", "default"] ["None"])
      "Return the environment variable name, or default when it is not set.")]
    hook := some .environment }

end Builtin

/-- The names at the start: the built-in functions and the modules `math` and `env`. -/
def Names.initial : Names :=
  let names : Names := { builtins := Builtin.table Builtin.functions }
  (names.addModule (bytes "math") Builtin.math).addModule (bytes "env") Builtin.env

end Calc
end CalcShell
