import CalcShell.Calc.Token
import CalcShell.Calc.Tree
import CalcShell.Number.Read

/-!
The grammar of the calculator language, from the loosest level to the tightest: or, and, not,
comparison, sum, term, sign, power, trailers, atom. Each level reads the front of a token list;
after a mistake nothing is left to read.
-/
namespace CalcShell
namespace Calc
namespace Grammar

/-- An expression at the front of a token list, and what stands behind it. -/
structure Parsed (ts : List Token) where
  expr : Expr
  rest : List Token
  rest_le : rest.length ≤ ts.length

namespace Parsed

def mistaken {ts : List Token} (expr : Expr) : Parsed ts := ⟨expr, [], Nat.zero_le _⟩

def widen {inner ts : List Token} (p : Parsed inner) (h : inner.length ≤ ts.length) : Parsed ts :=
  ⟨p.expr, p.rest, Nat.le_trans p.rest_le h⟩

end Parsed

structure ParsedArgs (ts : List Token) where
  args : Args
  rest : List Token
  rest_le : rest.length ≤ ts.length

namespace ParsedArgs

def mistaken {ts : List Token} (m : Mistake) : ParsedArgs ts := ⟨.mistake m, [], Nat.zero_le _⟩

def widen {inner ts : List Token} (p : ParsedArgs inner) (f : Args → Args)
    (h : inner.length ≤ ts.length) : ParsedArgs ts :=
  ⟨f p.args, p.rest, Nat.le_trans p.rest_le h⟩

end ParsedArgs

/-- The operator of a token among those of one level. -/
def binaryOp? (ops : List BinaryOp) (t : Token) : Option BinaryOp :=
  if t.kind = .operator then ops.find? (bytes ·.symbol == t.text) else none

def compareOp? (t : Token) : Option CompareOp :=
  if t.kind = .operator then CompareOp.all.find? (bytes ·.symbol == t.text) else none

def sumOps : List BinaryOp := [.add, .sub]

def termOps : List BinaryOp := [.mul, .div, .floorDiv, .mod]

/-- Whether a token is a sign, and which one. -/
def signOf? (t : Token) : Option Bool :=
  if t.is .operator "-" then some true else if t.is .operator "+" then some false else none

def keywordValue? (word : Bytes) : Option Value :=
  if word == bytes "None" then some .none
  else if word == bytes "True" then some (.bool true)
  else if word == bytes "False" then some (.bool false)
  else none

/-- A token that is an expression of its own. -/
def atomExpr (t : Token) : Expr :=
  match t.kind with
  | .number =>
    match Number.read? t.text with
    | some x => .literal (.number x)
    | none => .mistake .invalid
  | .string =>
    match unquote? t.text with
    | some text => .literal (.string text)
    | none => .mistake .unterminatedString
  | .name => .name t.text
  | .keyword =>
    match keywordValue? t.text with
    | some value => .literal value
    | none => .mistake .invalid
  | _ => .mistake .invalid

/-- A name with an equals sign behind it, as in assignments and keyword arguments. -/
def isBinding : List Token → Bool
  | name :: sign :: _ => name.kind == .name && sign.is .operator "="
  | _ => false

mutual

def or (ts : List Token) : Parsed ts :=
  match and ts with
  | ⟨left, rest, h⟩ => (orTail left rest).widen h
termination_by 11 * ts.length + 9

def orTail (left : Expr) (ts : List Token) : Parsed ts :=
  match ts with
  | [] => ⟨left, [], Nat.le_refl _⟩
  | t :: behind =>
    if t.is .keyword "or" then
      match and behind with
      | ⟨right, rest, h⟩ => (orTail (.or left right) rest).widen (Nat.le_succ_of_le h)
    else ⟨left, t :: behind, Nat.le_refl _⟩
termination_by 11 * ts.length + 0

def and (ts : List Token) : Parsed ts :=
  match not ts with
  | ⟨left, rest, h⟩ => (andTail left rest).widen h
termination_by 11 * ts.length + 8

def andTail (left : Expr) (ts : List Token) : Parsed ts :=
  match ts with
  | [] => ⟨left, [], Nat.le_refl _⟩
  | t :: behind =>
    if t.is .keyword "and" then
      match not behind with
      | ⟨right, rest, h⟩ => (andTail (.and left right) rest).widen (Nat.le_succ_of_le h)
    else ⟨left, t :: behind, Nat.le_refl _⟩
termination_by 11 * ts.length + 0

def not (ts : List Token) : Parsed ts :=
  match ts with
  | [] => comparison []
  | t :: behind =>
    if t.is .keyword "not" then
      match not behind with
      | ⟨operand, rest, h⟩ => ⟨.not operand, rest, Nat.le_succ_of_le h⟩
    else comparison (t :: behind)
termination_by 11 * ts.length + 7

def comparison (ts : List Token) : Parsed ts :=
  match sum ts with
  | ⟨left, [], _⟩ => ⟨left, [], Nat.zero_le _⟩
  | ⟨left, t :: behind, h⟩ =>
    match compareOp? t with
    | some op =>
      match sum behind with
      | ⟨right, rest, h'⟩ =>
        ⟨.compare op left right, rest, Nat.le_trans h' (Nat.le_trans (Nat.le_succ _) h)⟩
    | none => ⟨left, t :: behind, h⟩
termination_by 11 * ts.length + 6
decreasing_by
  · omega
  · simp only [List.length_cons] at *; omega

def sum (ts : List Token) : Parsed ts :=
  match term ts with
  | ⟨left, rest, h⟩ => (sumTail left rest).widen h
termination_by 11 * ts.length + 5

def sumTail (left : Expr) (ts : List Token) : Parsed ts :=
  match ts with
  | [] => ⟨left, [], Nat.le_refl _⟩
  | t :: behind =>
    match binaryOp? sumOps t with
    | some op =>
      match term behind with
      | ⟨right, rest, h⟩ => (sumTail (.binary op left right) rest).widen (Nat.le_succ_of_le h)
    | none => ⟨left, t :: behind, Nat.le_refl _⟩
termination_by 11 * ts.length + 0

def term (ts : List Token) : Parsed ts :=
  match unary ts with
  | ⟨left, rest, h⟩ => (termTail left rest).widen h
termination_by 11 * ts.length + 4

def termTail (left : Expr) (ts : List Token) : Parsed ts :=
  match ts with
  | [] => ⟨left, [], Nat.le_refl _⟩
  | t :: behind =>
    match binaryOp? termOps t with
    | some op =>
      match unary behind with
      | ⟨right, rest, h⟩ => (termTail (.binary op left right) rest).widen (Nat.le_succ_of_le h)
    | none => ⟨left, t :: behind, Nat.le_refl _⟩
termination_by 11 * ts.length + 0

def unary (ts : List Token) : Parsed ts :=
  match ts with
  | [] => power []
  | t :: behind =>
    match signOf? t with
    | some negative =>
      match unary behind with
      | ⟨operand, rest, h⟩ => ⟨.sign negative operand, rest, Nat.le_succ_of_le h⟩
    | none => power (t :: behind)
termination_by 11 * ts.length + 3

/-- The exponent takes a sign and a power of its own, so powers group to the right. -/
def power (ts : List Token) : Parsed ts :=
  match trailed ts with
  | ⟨base, [], _⟩ => ⟨base, [], Nat.zero_le _⟩
  | ⟨base, t :: behind, h⟩ =>
    match binaryOp? [.pow] t with
    | some op =>
      match unary behind with
      | ⟨exponent, rest, h'⟩ =>
        ⟨.binary op base exponent, rest, Nat.le_trans h' (Nat.le_trans (Nat.le_succ _) h)⟩
    | none => ⟨base, t :: behind, h⟩
termination_by 11 * ts.length + 2
decreasing_by
  · omega
  · simp only [List.length_cons] at *; omega

def trailed (ts : List Token) : Parsed ts :=
  match atom ts with
  | ⟨value, rest, h⟩ => (trailers value rest).widen h
termination_by 11 * ts.length + 1

/-- Calls and attributes behind a value. -/
def trailers (value : Expr) (ts : List Token) : Parsed ts :=
  match ts with
  | [] => ⟨value, [], Nat.le_refl _⟩
  | t :: behind =>
    if t.is .punctuation "(" then
      match arguments false behind with
      | ⟨args, rest, h⟩ => (trailers (.call value args) rest).widen (Nat.le_succ_of_le h)
    else if t.is .punctuation "." then
      match behind with
      | member :: rest =>
        if member.kind = .name then
          (trailers (.attribute value member.text) rest).widen
            (Nat.le_succ_of_le (Nat.le_succ _))
        else .mistaken (.broken value .invalid)
      | [] => .mistaken (.broken value .invalid)
    else ⟨value, t :: behind, Nat.le_refl _⟩
termination_by 11 * ts.length + 0

/-- Arguments and the closing bracket. `named` tells whether a keyword argument came before. -/
def arguments (named : Bool) (ts : List Token) : ParsedArgs ts :=
  match ts with
  | [] => .mistaken .invalid
  | t :: behind =>
    if t.is .punctuation ")" then ⟨.closed, behind, Nat.le_succ _⟩
    else if isBinding (t :: behind) then
      match or (behind.drop 1) with
      | ⟨value, rest, h⟩ =>
        (argumentsTail true rest).widen (.keyword t.text value)
          (Nat.le_succ_of_le (Nat.le_trans h (by simp)))
    else if named then .mistaken .positionalAfterKeyword
    else
      match or (t :: behind) with
      | ⟨value, rest, h⟩ => (argumentsTail false rest).widen (.positional value) h
termination_by 11 * ts.length + 10
decreasing_by all_goals simp only [List.length_drop, List.length_cons] at *; omega

/-- What follows an argument. -/
def argumentsTail (named : Bool) (ts : List Token) : ParsedArgs ts :=
  match ts with
  | [] => .mistaken .invalid
  | t :: behind =>
    if t.is .punctuation "," then (arguments named behind).widen id (Nat.le_succ _)
    else if t.is .punctuation ")" then ⟨.closed, behind, Nat.le_succ _⟩
    else .mistaken .invalid
termination_by 11 * ts.length + 0

def atom (ts : List Token) : Parsed ts :=
  match ts with
  | [] => .mistaken (.mistake .invalid)
  | t :: behind =>
    if t.is .punctuation "(" then
      match or behind with
      | ⟨inner, [], _⟩ => .mistaken (.broken inner .invalid)
      | ⟨inner, close :: rest, h⟩ =>
        if close.is .punctuation ")" then
          ⟨inner, rest, Nat.le_succ_of_le (Nat.le_trans (Nat.le_succ _) h)⟩
        else .mistaken (.broken inner .invalid)
    else
      match atomExpr t with
      | .mistake m => .mistaken (.mistake m)
      | expr => ⟨expr, behind, Nat.le_succ _⟩
termination_by 11 * ts.length + 0

end

/-- All the tokens as one expression. -/
def expression (ts : List Token) : Expr :=
  match or ts with
  | ⟨expr, [], _⟩ => expr
  | ⟨expr, _ :: _, _⟩ => .broken expr .invalid

/-- All the tokens as one statement. A repetition is no statement but a block of them. -/
def statement (ts : List Token) : Statement :=
  match ts with
  | [] => .empty
  | t :: behind =>
    if t.is .keyword "repeat" then .mistake .invalid
    else if t.is .keyword "import" then
      match behind with
      | [name] => if name.kind = .name then .importModule name.text else .mistake .invalid
      | _ => .mistake .invalid
    else if isBinding (t :: behind) then .assign t.text (expression (behind.drop 1))
    else .echo (expression (t :: behind))

end Grammar
end Calc
end CalcShell
