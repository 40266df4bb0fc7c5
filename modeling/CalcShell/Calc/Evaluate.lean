import CalcShell.Calc.Functions
import CalcShell.Calc.Grammar

/-!
Evaluation of expressions and statements, from left to right. An operand that a decided `and` or
`or` skips has no effect, but a mistake in it is still found.
-/
namespace CalcShell
namespace Calc

mutual

/-- The first mistake in reading order. -/
def Expr.firstMistake? : Expr → Option Mistake
  | .literal _ | .name _ => none
  | .attribute owner _ => owner.firstMistake?
  | .call callee args => callee.firstMistake? <|> args.firstMistake?
  | .sign _ operand | .not operand => operand.firstMistake?
  | .binary _ left right | .compare _ left right | .and left right | .or left right =>
    left.firstMistake? <|> right.firstMistake?
  | .mistake m => some m
  | .broken before m => before.firstMistake? <|> some m

def Args.firstMistake? : Args → Option Mistake
  | .closed => none
  | .mistake m => some m
  | .positional value rest | .keyword _ value rest => value.firstMistake? <|> rest.firstMistake?

end

/-- Passes over an operand without evaluating it. -/
def skip (e : Expr) : Run Unit :=
  match e.firstMistake? with
  | some m => Run.fail (.malformed m)
  | none => pure ()

def resolve (name : Bytes) : Run Value := do
  match (← get).names.global? name with
  | some symbol => pure symbol.value
  | none => Run.fail (.nameUndefined name)

mutual

def Expr.eval : Expr → Run Value
  | .literal value => pure value
  | .name name => resolve name
  | .attribute owner member => do getAttribute (← owner.eval) member
  | .call callee args => do
    let function ← callee.eval
    callValue function (← args.eval {})
  | .sign negative operand => do Run.ofExcept (applySign negative (← operand.eval))
  | .binary op left right => do
    let a ← left.eval
    let b ← right.eval
    Run.ofExcept (op.apply a b)
  | .compare op left right => do
    let a ← left.eval
    let b ← right.eval
    return .bool (← Run.ofExcept (op.apply a b))
  | .not operand => do return .bool !(← operand.eval).isTruthy
  | .and left right => do
    let a ← left.eval
    if a.isTruthy then right.eval
    else
      skip right
      pure a
  | .or left right => do
    let a ← left.eval
    if a.isTruthy then
      skip right
      pure a
    else right.eval
  | .mistake m => Run.fail (.malformed m)
  | .broken before m => do
    let _ ← before.eval
    Run.fail (.malformed m)

/-- Evaluates arguments in order and adds them to those of the call so far. -/
def Args.eval : Args → CallArgs → Run CallArgs
  | .closed, call => pure call
  | .mistake m, _ => Run.fail (.malformed m)
  | .positional value rest, call => do
    let v ← value.eval
    rest.eval { call with positional := call.positional ++ [v] }
  | .keyword name value rest, call => do
    let v ← value.eval
    rest.eval { call with keywords := call.keywords.insert name v }

end

namespace Statement

/-- Runs a statement; the value of a bare expression is echoed unless it is `None`. -/
def run : Statement → Run Unit
  | .empty => pure ()
  | .importModule name => do
    if ((← get).names.module? name).isNone then Run.fail (.moduleNotFound name)
  | .assign name value => do Run.assign name (← value.eval)
  | .echo value => do
    let v ← value.eval
    if !v.isNone then Run.emit (v.repr ++ [Ascii.newline])
  | .mistake m => Run.fail (.malformed m)

end Statement

/-- The statement that a text writes. -/
def parseStatement (text : Bytes) : Statement := Grammar.statement (Token.significant text)

/-- The expression that a text writes. -/
def parseExpression (text : Bytes) : Expr := Grammar.expression (Token.significant text)

/-- Runs `body` the given number of times. -/
def repeatRun (body : Run Unit) : Nat → Run Unit
  | 0 => pure ()
  | n + 1 => do
    body
    repeatRun body n

/-- Runs statements as often as the count says; the first error ends it all. -/
def runBlock (count : Expr) (body : List Statement) : Run Unit := do
  let value ← count.eval
  match value.number? with
  | some x => repeatRun (body.forM Statement.run) (Number.repetitions x)
  | none => Run.fail (.repeatCount value.typeName)

/-- An error of the calculator becomes a line of error output. -/
def reporting (action : Run Unit) : Run Unit :=
  tryCatch action fun stop =>
    match stop with
    | .failed e => Run.emit (e.message ++ [Ascii.newline]) true
    | other => throw other

end Calc
end CalcShell
