import CalcShell.Environment
import CalcShell.Number.Read

/-!
Options of the command line. Long options may be abbreviated as long as they stay unique, short ones
can be joined, and options may stand behind operands unless the environment forbids it; two dashes
alone end them.
-/
namespace CalcShell

structure Options where
  config : Bytes := bytes "replview.yaml"
  /-- The history file, if one is given. -/
  history : Bytes := []
  /-- The port to take lines from, if any. -/
  port : Option Nat := none
  isQuiet : Bool := false
  wantsHelp : Bool := false
deriving DecidableEq, Repr, Inhabited

namespace Options

inductive Flag where
  | help | quiet | config | history | listen
deriving DecidableEq, Repr

inductive Refusal where
  /-- An option that is unknown, ambiguous, or without the argument it needs. -/
  | badOption
  | badPort (text : Bytes)
  | operand (text : Bytes)
deriving DecidableEq, Repr

namespace Refusal

/-- What is written about a refusal; nothing about a bad option. -/
def message : Refusal → Bytes
  | .badOption => []
  | .badPort text => bytes "Error: invalid port '" ++ text ++ bytes "'\n"
  | .operand text => bytes "Error: unexpected argument '" ++ text ++ bytes "'\n"

end Refusal

namespace Flag

def all : List Flag := [.help, .quiet, .config, .history, .listen]

def long : Flag → String
  | .help => "help"
  | .quiet => "quiet"
  | .config => "config"
  | .history => "history"
  | .listen => "listen"

def takesArgument : Flag → Bool
  | .help | .quiet => false
  | .config | .history | .listen => true

/-- The option with this very name, or else the only one whose name begins like it. -/
def ofLong? (name : Bytes) : Option Flag :=
  match all.find? (bytes ·.long == name) with
  | some option => some option
  | none =>
    match all.filter (name.isPrefixOf <| bytes ·.long) with
    | [option] => some option
    | _ => none

def ofShort? (letter : UInt8) : Option Flag :=
  if letter = Ascii.code 'h' then some .help
  else if letter = Ascii.code 'q' then some .quiet
  else none

end Flag

def largestPort : Nat := 65535

/-- A decimal port number; white space and a sign may stand before it. -/
def port? (text : Bytes) : Option Nat :=
  let (negative, digits) := Number.splitSign (text.dropWhile Ascii.isSpace)
  let n := Number.natOfDigits 10 digits
  if !digits.isEmpty && digits.all Ascii.isDigit && n ≤ largestPort && !(negative && n != 0) then
    some n
  else none

/-- Takes one option over, with its argument. -/
def apply (options : Options) (option : Flag) (argument : Bytes) : Except Refusal Options :=
  match option with
  | .help => .ok { options with wantsHelp := true }
  | .quiet => .ok { options with isQuiet := true }
  | .config => .ok { options with config := argument }
  | .history => .ok { options with history := argument }
  | .listen =>
    match port? argument with
    | some port => .ok { options with port := some port }
    | none => .error (.badPort argument)

/-- Options as far as they were read, and the refusal that ended the reading. -/
abbrev Reading := Options × Option Refusal

def Reading.andThen (result : Except Refusal Options) (options : Options)
    (next : Options → Reading) : Reading :=
  match result with
  | .ok options => next options
  | .error refusal => (options, some refusal)

/-- Takes over the letters of short options. -/
def applyLetters (next : Options → Reading) : Bytes → Options → Reading
  | [], options => next options
  | letter :: rest, options =>
    match Flag.ofShort? letter with
    | some option =>
      Reading.andThen (options.apply option []) options (applyLetters next rest)
    | none => (options, some .badOption)

/-- Ends the reading; the first operand is refused. -/
def finish (operands : List Bytes) (options : Options) : Reading :=
  (options, operands.head?.map .operand)

/-- Name and value of a long option. -/
def splitValue (text : Bytes) : Bytes × Option Bytes :=
  match text.cutFirst? (Ascii.code '=') with
  | some (name, value) => (name, some value)
  | none => (text, none)

/-- Reads the arguments behind some operands. In strict order the first operand ends the options. -/
def read (isStrict : Bool) (operands : List Bytes) : List Bytes → Options → Reading
  | [], options => finish operands options
  | argument :: rest, options =>
    match argument with
    | 0x2D :: 0x2D :: [] => finish (operands ++ rest) options
    | 0x2D :: 0x2D :: text =>
      let (name, value) := splitValue text
      match Flag.ofLong? name, value with
      | none, _ => (options, some .badOption)
      | some option, some value =>
        if option.takesArgument then
          Reading.andThen (options.apply option value) options fun options =>
            read isStrict operands rest options
        else (options, some .badOption)
      | some option, none =>
        if option.takesArgument then
          match rest with
          | value :: rest =>
            Reading.andThen (options.apply option value) options fun options =>
              read isStrict operands rest options
          | [] => (options, some .badOption)
        else
          Reading.andThen (options.apply option []) options fun options =>
            read isStrict operands rest options
    | 0x2D :: letter :: letters =>
      applyLetters (fun options => read isStrict operands rest options) (letter :: letters) options
    | _ =>
      if isStrict then finish (argument :: rest) options
      else read isStrict (operands ++ [argument]) rest options

/-- The variable that asks for strict order. -/
def strictOrder : Bytes := bytes "POSIXLY_CORRECT"

/-- The options in a list of arguments. -/
def parse (env : Environment) (arguments : List Bytes) : Reading :=
  read (env.get? strictOrder).isSome [] (arguments.map Bytes.untilNul) {}

end Options
end CalcShell
