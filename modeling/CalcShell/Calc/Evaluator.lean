import CalcShell.Calc.Evaluate

/-!
The calculator as an evaluator of lines. A statement goes on over several lines while a bracket is
open or a line ends in a backslash; a block of repeated lines goes on up to a blank line.
-/
namespace CalcShell
namespace Calc

/-- A block that is being entered: its count as written, and its lines. -/
structure Block where
  count : Bytes
  body : List Bytes
deriving DecidableEq, Repr

structure Calculator where
  names : Names := .initial
  /-- Lines of an unfinished statement. -/
  pending : List Bytes := []
  block : Option Block := none
  hookCalls : Nat := 0

/-- Blanks at the ends of lines that do not count. -/
def trimLine (line : Bytes) : Bytes := line.trim Number.isBlank

/-- A line without the backslash that continues it. -/
def withoutBackslash (line : Bytes) : Bytes :=
  let text := trimLine line
  if text.getLast? = some Ascii.backslash then text.dropLast else text

def endsInBackslash (line : Bytes) : Bool := (trimLine line).getLast? == some Ascii.backslash

/-- The text of a statement over several lines. -/
def joinLines (lines : List Bytes) : Bytes :=
  lines.foldl
    (fun joined line =>
      (if joined.isEmpty then [] else joined ++ [Ascii.space]) ++ withoutBackslash line)
    []

/-- The count of a block's header, if the tokens of a text are one. -/
def repeatCount? (text : Bytes) (tokens : List Token) : Option Bytes :=
  match tokens, tokens.getLast? with
  | first :: second :: _, some last =>
    if first.is .keyword "repeat" && last.is .punctuation ":" then
      some ((text.drop second.pos).take (last.pos - second.pos))
    else none
  | _, _ => none

/-- What one more line asks for. -/
inductive Step where
  /-- Nothing to evaluate yet. -/
  | wait (next : Calculator) (indent : Nat)
  | run (next : Calculator) (action : Run Unit)

namespace Calculator

def blockAction (block : Block) : Run Unit :=
  reporting (runBlock (parseExpression block.count) (block.body.map parseStatement))

/-- Takes one more line, without evaluating anything. -/
def step (c : Calculator) (line : Bytes) : Step :=
  match c.block with
  | some block =>
    if (trimLine line).isEmpty then .run { c with block := none } (blockAction block)
    else .wait { c with block := some { block with body := block.body ++ [trimLine line] } } 1
  | none =>
    let pending := c.pending ++ [line]
    let text := joinLines pending
    let tokens := Token.significant text
    if 0 < Token.bracketDepth tokens || endsInBackslash line then .wait { c with pending } 0
    else
      let c := { c with pending := [] }
      match repeatCount? text tokens with
      | some count => .wait { c with block := some { count, body := [] } } 1
      | none => .run c (reporting (parseStatement text).run)

def machine (c : Calculator) (env : Environment) (patience : Patience) : Machine :=
  { names := c.names, env, patience, hookCalls := c.hookCalls }

/-- The calculator after a run, with the names that the run left. -/
def after (c : Calculator) (m : Machine) : Calculator :=
  { c with names := m.names, hookCalls := m.hookCalls }

/-- Takes one more line. An interrupt undoes its effects, save for what it wrote; an exit drops the
unfinished statement. -/
def submit (c : Calculator) (env : Environment) (patience : Patience) (line : Bytes) :
    Submission Calculator :=
  match c.step line with
  | .wait next indent => { outcome := .finished true indent, pieces := [], next, patience }
  | .run next action =>
    match action.run (c.machine env patience) with
    | .ok () m =>
      { outcome := .finished false 0, pieces := m.written.reverse
        next := next.after m, patience := m.patience }
    | .error .interrupted m =>
      { outcome := .interrupted, pieces := m.written.reverse
        next := { c with hookCalls := m.hookCalls }, patience := m.patience }
    | .error .exit m =>
      { outcome := .exit, pieces := m.written.reverse
        next := { next.after m with pending := [], block := none }, patience := m.patience }
    | .error (.failed e) m =>
      { outcome := .failed e.message, pieces := m.written.reverse
        next := next.after m, patience := m.patience }

/-- Forgets the user's names and any unfinished statement. -/
def reset (c : Calculator) : Calculator :=
  { c with names := { c.names with user := .empty }, pending := [], block := none }

/-- Evaluates one expression outside any line. -/
def evaluate (c : Calculator) (env : Environment) (patience : Patience) (text : Bytes) :
    Except Stop Value × List Piece × Calculator :=
  match (parseExpression text).eval.run (c.machine env patience) with
  | .ok value m => (.ok value, m.written.reverse, c.after m)
  | .error stop m => (.error stop, m.written.reverse, c.after m)

instance : Evaluator Calculator where
  submit := submit
  reset := reset

end Calculator
end Calc
end CalcShell
