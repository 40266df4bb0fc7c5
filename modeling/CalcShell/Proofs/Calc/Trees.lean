import CalcShell.Calc.Evaluate
import CalcShell.Proofs.Calc.Literals

/-! Expressions as a reader sees them: trees of operators, calls and attributes over values and names.
They are written with as few parentheses as their operators allow, and evaluated from left to right. -/
namespace CalcShell.Calc

/-! ### Trees -/

inductive Atom where
  | number (n : Numeral)
  | string (l : StringLiteral)
  | name (x : Identifier)
  | none
  | bool (b : Bool)

mutual

inductive Tree where
  | atom (a : Atom)
  | member (owner : Tree) (name : Identifier)
  | call (callee : Tree) (args : Positionals)
  | sign (negative : Bool) (operand : Tree)
  | binary (op : BinaryOp) (left right : Tree)
  | compare (op : CompareOp) (left right : Tree)
  | not (operand : Tree)
  | and (left right : Tree)
  | or (left right : Tree)

/-- The arguments of a call, first those without a name. -/
inductive Positionals where
  | named (rest : Keywords)
  | cons (value : Tree) (rest : Positionals)

/-- Arguments with names. -/
inductive Keywords where
  | nil
  | cons (name : Identifier) (value : Tree) (rest : Keywords)

end

/-! ### Writing -/

namespace Token

def punctuation (text : String) : Token := { kind := .punctuation, text := bytes text, pos := 0 }

def operator (text : String) : Token := { kind := .operator, text := bytes text, pos := 0 }

def keyword (text : String) : Token := { kind := .keyword, text := bytes text, pos := 0 }

end Token

namespace BinaryOp

/-- How tightly an operator binds, from the loosest level to the tightest. -/
def level : BinaryOp → Nat
  | .add | .sub => 4
  | .mul | .div | .floorDiv | .mod => 5
  | .pow => 7

/-- The levels that the operands have at least. A power groups to the right, with a sign in its
exponent; the others group to the left. -/
def operandLevels : BinaryOp → Nat × Nat
  | .pow => (8, 6)
  | op => (op.level, op.level + 1)

end BinaryOp

namespace Atom

def token : Atom → Token
  | number n => n.token
  | string l => l.token
  | name x => x.token
  | none => .keyword "None"
  | bool b => .keyword (if b then "True" else "False")

end Atom

/-- How tightly the outermost operator of a tree binds. -/
def Tree.level : Tree → Nat
  | .or .. => 0
  | .and .. => 1
  | .not .. => 2
  | .compare .. => 3
  | .binary op .. => op.level
  | .sign .. => 6
  | .member .. | .call .. => 8
  | .atom .. => 9

/-- Tokens, in parentheses if asked for. -/
def parenthesized (needed : Bool) (ts : List Token) : List Token :=
  if needed then .punctuation "(" :: ts ++ [.punctuation ")"] else ts

/-- The comma in front of every argument but the first one. -/
def comma (isFirst : Bool) : List Token := if isFirst then [] else [.punctuation ","]

mutual

/-- The tokens of a tree. Operands stand in parentheses if they bind less tightly than their place
asks for. -/
def Tree.tokens : Tree → List Token
  | .atom a => [a.token]
  | .member owner name =>
    parenthesized (owner.level < 8) owner.tokens ++ [.punctuation ".", name.token]
  | .call callee args =>
    parenthesized (callee.level < 8) callee.tokens ++ .punctuation "(" :: args.tokens true
  | .sign negative operand =>
    .operator (if negative then "-" else "+") :: parenthesized (operand.level < 6) operand.tokens
  | .binary op left right =>
    parenthesized (left.level < op.operandLevels.1) left.tokens ++ .operator op.symbol ::
      parenthesized (right.level < op.operandLevels.2) right.tokens
  | .compare op left right =>
    parenthesized (left.level < 4) left.tokens ++ .operator op.symbol ::
      parenthesized (right.level < 4) right.tokens
  | .not operand => .keyword "not" :: parenthesized (operand.level < 2) operand.tokens
  | .and left right =>
    parenthesized (left.level < 1) left.tokens ++ .keyword "and" ::
      parenthesized (right.level < 2) right.tokens
  | .or left right =>
    left.tokens ++ .keyword "or" :: parenthesized (right.level < 1) right.tokens

/-- The arguments and the closing parenthesis. -/
def Positionals.tokens (isFirst : Bool) : Positionals → List Token
  | .named rest => rest.tokens isFirst
  | .cons value rest => comma isFirst ++ (value.tokens ++ rest.tokens false)

def Keywords.tokens (isFirst : Bool) : Keywords → List Token
  | .nil => [.punctuation ")"]
  | .cons name value rest =>
    comma isFirst ++ (name.token :: .operator "=" :: (value.tokens ++ rest.tokens false))

end

/-- A tree as a text, with spaces between its tokens. -/
def Tree.text (t : Tree) : Bytes := Token.spell t.tokens

example (x y : Identifier) :
    (Tree.binary .pow (.sign true (.atom (.name x))) (.sign true (.atom (.name y)))).tokens =
      [.punctuation "(", .operator "-", x.token, .punctuation ")", .operator "**", .operator "-",
        y.token] := rfl

/-! ### Evaluating -/

namespace Atom

def eval : Atom → Run Value
  | number n => pure (.number n.value)
  | string l => pure (.string l.value)
  | name x => resolve x.text
  | none => pure .none
  | bool b => pure (.bool b)

end Atom

mutual

/-- Operands are evaluated from left to right, the second one of `and` and `or` only if the first one
does not decide. -/
def Tree.eval : Tree → Run Value
  | .atom a => a.eval
  | .member owner name => do
    let value ← owner.eval
    getAttribute value name.text
  | .call callee args => do
    let function ← callee.eval
    let values ← args.eval []
    callValue function values
  | .sign negative operand => do
    let value ← operand.eval
    Run.ofExcept (applySign negative value)
  | .binary op left right => do
    let a ← left.eval
    let b ← right.eval
    Run.ofExcept (op.apply a b)
  | .compare op left right => do
    let a ← left.eval
    let b ← right.eval
    let holds ← Run.ofExcept (op.apply a b)
    pure (.bool holds)
  | .not operand => do
    let value ← operand.eval
    pure (.bool !value.isTruthy)
  | .and left right => do
    let a ← left.eval
    if a.isTruthy then right.eval else pure a
  | .or left right => do
    let a ← left.eval
    if a.isTruthy then pure a else right.eval

/-- The values of arguments, behind those of some arguments before them. -/
def Positionals.eval (before : List Value) : Positionals → Run CallArgs
  | .named rest => rest.eval { positional := before }
  | .cons value rest => do
    let v ← value.eval
    rest.eval (before ++ [v])

/-- Of two arguments with one name the second one counts. -/
def Keywords.eval (call : CallArgs) : Keywords → Run CallArgs
  | .nil => pure call
  | .cons name value rest => do
    let v ← value.eval
    rest.eval { call with keywords := call.keywords.insert name.text v }

end

/-! ### Trees of the grammar -/

namespace Atom

/-- The tree of the grammar for a token. -/
def expr : Atom → Expr
  | number n => .literal (.number n.value)
  | string l => .literal (.string l.value)
  | name x => .name x.text
  | none => .literal .none
  | bool b => .literal (.bool b)

end Atom

mutual

/-- The tree of the grammar for a tree. -/
def Tree.expr : Tree → Expr
  | .atom a => a.expr
  | .member owner name => .attribute owner.expr name.text
  | .call callee args => .call callee.expr args.args
  | .sign negative operand => .sign negative operand.expr
  | .binary op left right => .binary op left.expr right.expr
  | .compare op left right => .compare op left.expr right.expr
  | .not operand => .not operand.expr
  | .and left right => .and left.expr right.expr
  | .or left right => .or left.expr right.expr

def Positionals.args : Positionals → Args
  | .named rest => rest.args
  | .cons value rest => .positional value.expr rest.args

def Keywords.args : Keywords → Args
  | .nil => .closed
  | .cons name value rest => .keyword name.text value.expr rest.args

end

mutual

lemma Tree.firstMistake?_expr (t : Tree) : t.expr.firstMistake? = none := by
  cases t with
  | atom a => cases a <;> rfl
  | member owner name => exact owner.firstMistake?_expr
  | call callee args =>
    rw [Tree.expr, Expr.firstMistake?, callee.firstMistake?_expr, args.firstMistake?_args]
    rfl
  | sign negative operand => exact operand.firstMistake?_expr
  | not operand => exact operand.firstMistake?_expr
  | binary op left right | compare op left right | and left right | or left right =>
    rw [Tree.expr, Expr.firstMistake?, left.firstMistake?_expr, right.firstMistake?_expr]
    rfl

lemma Positionals.firstMistake?_args (ps : Positionals) : ps.args.firstMistake? = none := by
  cases ps with
  | named rest => exact rest.firstMistake?_args
  | cons value rest =>
    rw [Positionals.args, Args.firstMistake?, value.firstMistake?_expr, rest.firstMistake?_args]
    rfl

lemma Keywords.firstMistake?_args (ks : Keywords) : ks.args.firstMistake? = none := by
  cases ks with
  | nil => rfl
  | cons name value rest =>
    rw [Keywords.args, Args.firstMistake?, value.firstMistake?_expr, rest.firstMistake?_args]
    rfl

end

/-- Nothing happens when an operand without a mistake is passed over. -/
lemma skip_expr (t : Tree) : skip t.expr = pure () := by
  rw [skip, t.firstMistake?_expr]

mutual

theorem Tree.eval_expr (t : Tree) : t.expr.eval = t.eval := by
  cases t with
  | atom a => cases a <;> rfl
  | member owner name => simp only [Tree.expr, Expr.eval, Tree.eval, owner.eval_expr]
  | call callee args =>
    simp only [Tree.expr, Expr.eval, Tree.eval, callee.eval_expr, args.eval_args []]
  | sign negative operand => simp only [Tree.expr, Expr.eval, Tree.eval, operand.eval_expr]
  | not operand => simp only [Tree.expr, Expr.eval, Tree.eval, operand.eval_expr]
  | binary op left right | compare op left right =>
    simp only [Tree.expr, Expr.eval, Tree.eval, left.eval_expr, right.eval_expr]
  | and left right | or left right =>
    simp only [Tree.expr, Expr.eval, Tree.eval, left.eval_expr, right.eval_expr, skip_expr, pure_bind]

theorem Positionals.eval_args (ps : Positionals) (before : List Value) :
    ps.args.eval { positional := before } = ps.eval before := by
  cases ps with
  | named rest => exact rest.eval_args _
  | cons value rest =>
    simp only [Positionals.args, Args.eval, Positionals.eval, value.eval_expr, rest.eval_args]

theorem Keywords.eval_args (ks : Keywords) (call : CallArgs) : ks.args.eval call = ks.eval call := by
  cases ks with
  | nil => rfl
  | cons name value rest =>
    simp only [Keywords.args, Args.eval, Keywords.eval, value.eval_expr, rest.eval_args]

end

/-! ### Words -/

lemma Atom.isWord_token (a : Atom) : a.token.IsWord := by
  cases a with
  | number n => exact n.isWord_token
  | string l => exact l.isWord_token
  | name x => exact x.isWord_token
  | none => decide +kernel
  | bool b => cases b <;> decide +kernel

lemma isWord_parenthesized {needed : Bool} {ts : List Token} (words : ∀ t ∈ ts, t.IsWord) :
    ∀ t ∈ parenthesized needed ts, t.IsWord := by
  rw [parenthesized]
  split
  · rw [List.cons_append, List.forall_mem_cons, List.forall_mem_append, List.forall_mem_singleton]
    exact ⟨by decide +kernel, words, by decide +kernel⟩
  · exact words

lemma isWord_comma (isFirst : Bool) : ∀ t ∈ comma isFirst, t.IsWord := by
  cases isFirst <;> decide +kernel

lemma isWord_symbol (op : BinaryOp) : (Token.operator op.symbol).IsWord := by
  cases op <;> decide +kernel

lemma isWord_compareSymbol (op : CompareOp) : (Token.operator op.symbol).IsWord := by
  cases op <;> decide +kernel

mutual

/-- A tree is written with words only. -/
theorem Tree.isWord_tokens (t : Tree) : ∀ token ∈ t.tokens, token.IsWord := by
  cases t with
  | atom a =>
    rw [Tree.tokens, List.forall_mem_singleton]
    exact a.isWord_token
  | member owner name =>
    rw [Tree.tokens, List.forall_mem_append, List.forall_mem_cons, List.forall_mem_singleton]
    exact ⟨isWord_parenthesized owner.isWord_tokens, by decide +kernel, name.isWord_token⟩
  | call callee args =>
    rw [Tree.tokens, List.forall_mem_append, List.forall_mem_cons]
    exact ⟨isWord_parenthesized callee.isWord_tokens, by decide +kernel, args.isWord_tokens true⟩
  | sign negative operand =>
    rw [Tree.tokens, List.forall_mem_cons]
    refine ⟨?_, isWord_parenthesized operand.isWord_tokens⟩
    cases negative <;> decide +kernel
  | binary op left right =>
    rw [Tree.tokens, List.forall_mem_append, List.forall_mem_cons]
    exact ⟨isWord_parenthesized left.isWord_tokens, isWord_symbol op,
      isWord_parenthesized right.isWord_tokens⟩
  | compare op left right =>
    rw [Tree.tokens, List.forall_mem_append, List.forall_mem_cons]
    exact ⟨isWord_parenthesized left.isWord_tokens, isWord_compareSymbol op,
      isWord_parenthesized right.isWord_tokens⟩
  | not operand =>
    rw [Tree.tokens, List.forall_mem_cons]
    exact ⟨by decide +kernel, isWord_parenthesized operand.isWord_tokens⟩
  | and left right =>
    rw [Tree.tokens, List.forall_mem_append, List.forall_mem_cons]
    exact ⟨isWord_parenthesized left.isWord_tokens, by decide +kernel,
      isWord_parenthesized right.isWord_tokens⟩
  | or left right =>
    rw [Tree.tokens, List.forall_mem_append, List.forall_mem_cons]
    exact ⟨left.isWord_tokens, by decide +kernel, isWord_parenthesized right.isWord_tokens⟩

lemma Positionals.isWord_tokens (ps : Positionals) (isFirst : Bool) :
    ∀ token ∈ ps.tokens isFirst, token.IsWord := by
  cases ps with
  | named rest => exact rest.isWord_tokens isFirst
  | cons value rest =>
    rw [Positionals.tokens, List.forall_mem_append, List.forall_mem_append]
    exact ⟨isWord_comma isFirst, value.isWord_tokens, rest.isWord_tokens false⟩

lemma Keywords.isWord_tokens (ks : Keywords) (isFirst : Bool) :
    ∀ token ∈ ks.tokens isFirst, token.IsWord := by
  cases ks with
  | nil =>
    rw [Keywords.tokens, List.forall_mem_singleton]
    decide +kernel
  | cons name value rest =>
    rw [Keywords.tokens, List.forall_mem_append, List.forall_mem_cons, List.forall_mem_cons,
      List.forall_mem_append]
    exact ⟨isWord_comma isFirst, name.isWord_token, by decide +kernel, value.isWord_tokens,
      rest.isWord_tokens false⟩

end

end CalcShell.Calc
