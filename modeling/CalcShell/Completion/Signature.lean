import CalcShell.Text.Styled

/-!
Signatures of callables and the argument hint that shows them, with the argument at the cursor in
bold.
-/
namespace CalcShell

structure Signature where
  name : Bytes := []
  args : List Bytes := []
  /-- Defaults of the last arguments. -/
  defaults : List Bytes := []
  varargs : Bytes := []
  kwonly : List Bytes := []
  kwonlyDefaults : List (Bytes × Bytes) := []
  varkw : Bytes := []
  /-- The first argument is the receiver, which is never typed. -/
  isBound : Bool := false
  activeIndex : Option Int := none
  activeKeyword : Bytes := []
deriving DecidableEq, Repr, Inhabited

namespace Signature

def comma : Run := { style := .punctuation, text := bytes ", " }

def commaIf (condition : Bool) : StyledLine := if condition then [comma] else []

def token (text : Bytes) (bold : Bool := false) : Run := { style := .token, text, bold }

def punctuation (text : String) : Run := { style := .punctuation, text := bytes text }

/-- The equals sign and the default behind a parameter. -/
def defaultRuns (value : Option Bytes) : StyledLine :=
  match value with
  | some value => [punctuation "=", token value]
  | none => []

/-- Defaults of the arguments from the first one on. -/
def alignedDefaults (spec : Signature) : List (Option Bytes) :=
  let n := min spec.defaults.length spec.args.length
  List.replicate (spec.args.length - n) none ++ (spec.defaults.take n).map some

/-- Place of the active argument among the arguments, the receiver counted. -/
def activePlace (spec : Signature) : Option Int :=
  if spec.isBound then spec.activeIndex.map (· + 1) else spec.activeIndex

def argPiece (spec : Signature) (place : Nat) (arg : Bytes) (value : Option Bytes) : StyledLine :=
  let style := if place = 0 ∧ arg = bytes "self" then Style.name else Style.token
  let bold := spec.activePlace == some (place : Int) ||
    (!spec.activeKeyword.isEmpty && arg == spec.activeKeyword)
  { style, text := arg, bold } :: defaultRuns value ++ commaIf (place + 1 != spec.args.length)

def argPieces (spec : Signature) : List StyledLine :=
  (spec.args.zip spec.alignedDefaults).mapIdx fun place (arg, value) => spec.argPiece place arg value

def varargsPieces (spec : Signature) : List StyledLine :=
  if spec.varargs.isEmpty then []
  else [commaIf (!spec.args.isEmpty) ++ [token (bytes "*" ++ spec.varargs)]]

/-- The bare star before keyword-only parameters that no variable arguments precede. -/
def starPieces (spec : Signature) : List StyledLine :=
  if spec.kwonly.isEmpty || !spec.varargs.isEmpty then []
  else [commaIf (!spec.args.isEmpty) ++ [punctuation "*"]]

def kwonlyPieces (spec : Signature) : List StyledLine :=
  spec.kwonly.map fun arg =>
    [comma, token arg (arg == spec.activeKeyword)] ++ defaultRuns (spec.kwonlyDefaults.lookup arg)

def varkwPieces (spec : Signature) : List StyledLine :=
  if spec.varkw.isEmpty then []
  else
    let others := !spec.args.isEmpty || !spec.varargs.isEmpty || !spec.kwonly.isEmpty
    [commaIf others ++ [token (bytes "**" ++ spec.varkw)]]

def headPiece (spec : Signature) : StyledLine :=
  [{ style := .name, text := spec.name, bold := true }, { style := .name, text := bytes ": (" }]

/-- Adds a run to the last piece. -/
def close : List StyledLine → List StyledLine
  | [] => []
  | [piece] => [piece ++ [punctuation ")"]]
  | piece :: rest => piece :: close rest

/-- The hint in pieces between which it may be broken: the name, then one parameter a piece. -/
def pieces (spec : Signature) : List StyledLine :=
  close (spec.headPiece :: spec.argPieces ++ spec.varargsPieces ++ spec.starPieces ++
    spec.kwonlyPieces ++ spec.varkwPieces)

end Signature
end CalcShell
