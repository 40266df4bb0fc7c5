import CalcShell.Calc.Evaluate

/-! Evaluation in one pass over the tokens. Every level of the grammar evaluates what it reads as it reads
it. The depth counts the operands that a decided `and` or `or` does not need: they are read like any
other, but nothing is evaluated in them. -/
namespace CalcShell.Calc

/-- What was found at the front of a token list, what stands behind it, and at which depth. -/
structure Found (α : Type) (ts : List Token) where
  value : α
  rest : List Token
  depth : Nat
  rest_le : rest.length ≤ ts.length

def Found.widen {α : Type} {inner ts : List Token} (h : inner.length ≤ ts.length)
    (found : Found α inner) : Found α ts :=
  ⟨found.value, found.rest, found.depth, Nat.le_trans found.rest_le h⟩

namespace OnePass

/-- An action at the depth zero; elsewhere nothing happens and a value is given in its place. -/
def atTop {α : Type} (depth : Nat) (passed : α) (action : Run α) : Run α :=
  if depth = 0 then action else pure passed

def malformed {α : Type} (m : Mistake) : Run α := Run.fail (.malformed m)

/-- The value of a token that is an expression of its own. -/
def tokenValue (depth : Nat) (t : Token) : Run Value :=
  match t.kind with
  | .number =>
    match Number.read? t.text with
    | some x => pure (.number x)
    | none => malformed .invalid
  | .string =>
    match unquote? t.text with
    | some text => pure (.string text)
    | none => malformed .unterminatedString
  | .name => atTop depth .none (resolve t.text)
  | .keyword =>
    match Grammar.keywordValue? t.text with
    | some value => pure value
    | none => malformed .invalid
  | _ => malformed .invalid

mutual

def or (depth : Nat) (ts : List Token) : Run (Found Value ts) := do
  let ⟨left, rest, depth, h⟩ ← and depth ts
  Found.widen h <$> orTail left depth rest
termination_by 11 * ts.length + 9

def orTail (left : Value) (depth : Nat) (ts : List Token) : Run (Found Value ts) :=
  match ts with
  | [] => pure ⟨left, [], depth, Nat.le_refl _⟩
  | t :: behind =>
    if t.is .keyword "or" then do
      let decided := depth == 0 && left.isTruthy
      let ⟨right, rest, depth, h⟩ ← and (if decided then depth + 1 else depth) behind
      Found.widen (Nat.le_succ_of_le h) <$>
        orTail (if decided then left else right) (if decided then depth - 1 else depth) rest
    else pure ⟨left, t :: behind, depth, Nat.le_refl _⟩
termination_by 11 * ts.length + 0

def and (depth : Nat) (ts : List Token) : Run (Found Value ts) := do
  let ⟨left, rest, depth, h⟩ ← not depth ts
  Found.widen h <$> andTail left depth rest
termination_by 11 * ts.length + 8

def andTail (left : Value) (depth : Nat) (ts : List Token) : Run (Found Value ts) :=
  match ts with
  | [] => pure ⟨left, [], depth, Nat.le_refl _⟩
  | t :: behind =>
    if t.is .keyword "and" then do
      let decided := depth == 0 && !left.isTruthy
      let ⟨right, rest, depth, h⟩ ← not (if decided then depth + 1 else depth) behind
      Found.widen (Nat.le_succ_of_le h) <$>
        andTail (if decided then left else right) (if decided then depth - 1 else depth) rest
    else pure ⟨left, t :: behind, depth, Nat.le_refl _⟩
termination_by 11 * ts.length + 0

def not (depth : Nat) (ts : List Token) : Run (Found Value ts) :=
  match ts with
  | [] => comparison depth []
  | t :: behind =>
    if t.is .keyword "not" then do
      let ⟨operand, rest, depth, h⟩ ← not depth behind
      let value ← atTop depth .none (pure (.bool !operand.isTruthy))
      pure ⟨value, rest, depth, Nat.le_succ_of_le h⟩
    else comparison depth (t :: behind)
termination_by 11 * ts.length + 7

def comparison (depth : Nat) (ts : List Token) : Run (Found Value ts) := do
  match ← sum depth ts with
  | ⟨left, [], depth, _⟩ => pure ⟨left, [], depth, Nat.zero_le _⟩
  | ⟨left, t :: behind, depth, h⟩ =>
    match Grammar.compareOp? t with
    | some op =>
      let ⟨right, rest, depth, h'⟩ ← sum depth behind
      let value ← atTop depth .none (.bool <$> Run.ofExcept (op.apply left right))
      pure ⟨value, rest, depth, Nat.le_trans h' (Nat.le_trans (Nat.le_succ _) h)⟩
    | none => pure ⟨left, t :: behind, depth, h⟩
termination_by 11 * ts.length + 6
decreasing_by
  · omega
  · simp only [List.length_cons] at *; omega

def sum (depth : Nat) (ts : List Token) : Run (Found Value ts) := do
  let ⟨left, rest, depth, h⟩ ← term depth ts
  Found.widen h <$> sumTail left depth rest
termination_by 11 * ts.length + 5

def sumTail (left : Value) (depth : Nat) (ts : List Token) : Run (Found Value ts) :=
  match ts with
  | [] => pure ⟨left, [], depth, Nat.le_refl _⟩
  | t :: behind =>
    match Grammar.binaryOp? Grammar.sumOps t with
    | some op => do
      let ⟨right, rest, depth, h⟩ ← term depth behind
      let value ← atTop depth left (Run.ofExcept (op.apply left right))
      Found.widen (Nat.le_succ_of_le h) <$> sumTail value depth rest
    | none => pure ⟨left, t :: behind, depth, Nat.le_refl _⟩
termination_by 11 * ts.length + 0

def term (depth : Nat) (ts : List Token) : Run (Found Value ts) := do
  let ⟨left, rest, depth, h⟩ ← unary depth ts
  Found.widen h <$> termTail left depth rest
termination_by 11 * ts.length + 4

def termTail (left : Value) (depth : Nat) (ts : List Token) : Run (Found Value ts) :=
  match ts with
  | [] => pure ⟨left, [], depth, Nat.le_refl _⟩
  | t :: behind =>
    match Grammar.binaryOp? Grammar.termOps t with
    | some op => do
      let ⟨right, rest, depth, h⟩ ← unary depth behind
      let value ← atTop depth left (Run.ofExcept (op.apply left right))
      Found.widen (Nat.le_succ_of_le h) <$> termTail value depth rest
    | none => pure ⟨left, t :: behind, depth, Nat.le_refl _⟩
termination_by 11 * ts.length + 0

def unary (depth : Nat) (ts : List Token) : Run (Found Value ts) :=
  match ts with
  | [] => power depth []
  | t :: behind =>
    match Grammar.signOf? t with
    | some negative => do
      let ⟨operand, rest, depth, h⟩ ← unary depth behind
      let value ← atTop depth operand (Run.ofExcept (applySign negative operand))
      pure ⟨value, rest, depth, Nat.le_succ_of_le h⟩
    | none => power depth (t :: behind)
termination_by 11 * ts.length + 3

def power (depth : Nat) (ts : List Token) : Run (Found Value ts) := do
  match ← trailed depth ts with
  | ⟨base, [], depth, _⟩ => pure ⟨base, [], depth, Nat.zero_le _⟩
  | ⟨base, t :: behind, depth, h⟩ =>
    match Grammar.binaryOp? [.pow] t with
    | some op =>
      let ⟨exponent, rest, depth, h'⟩ ← unary depth behind
      let value ← atTop depth base (Run.ofExcept (op.apply base exponent))
      pure ⟨value, rest, depth, Nat.le_trans h' (Nat.le_trans (Nat.le_succ _) h)⟩
    | none => pure ⟨base, t :: behind, depth, h⟩
termination_by 11 * ts.length + 2
decreasing_by
  · omega
  · simp only [List.length_cons] at *; omega

def trailed (depth : Nat) (ts : List Token) : Run (Found Value ts) := do
  let ⟨value, rest, depth, h⟩ ← atom depth ts
  Found.widen h <$> trailers value depth rest
termination_by 11 * ts.length + 1

def trailers (value : Value) (depth : Nat) (ts : List Token) : Run (Found Value ts) :=
  match ts with
  | [] => pure ⟨value, [], depth, Nat.le_refl _⟩
  | t :: behind =>
    if t.is .punctuation "(" then do
      let ⟨call, rest, depth, h⟩ ← arguments {} depth behind
      let result ← atTop depth value (callValue value call)
      Found.widen (Nat.le_succ_of_le h) <$> trailers result depth rest
    else if t.is .punctuation "." then
      match behind with
      | member :: rest =>
        if member.kind = .name then do
          let result ← atTop depth value (getAttribute value member.text)
          Found.widen (Nat.le_succ_of_le (Nat.le_succ _)) <$> trailers result depth rest
        else malformed .invalid
      | [] => malformed .invalid
    else pure ⟨value, t :: behind, depth, Nat.le_refl _⟩
termination_by 11 * ts.length + 0

/-- Arguments behind those of the call so far, and the closing bracket. -/
def arguments (call : CallArgs) (depth : Nat) (ts : List Token) : Run (Found CallArgs ts) :=
  match ts with
  | [] => malformed .invalid
  | t :: behind =>
    if t.is .punctuation ")" then pure ⟨call, behind, depth, Nat.le_succ _⟩
    else if Grammar.isBinding (t :: behind) then do
      let ⟨value, rest, depth, h⟩ ← or depth (behind.drop 1)
      Found.widen (Nat.le_succ_of_le (Nat.le_trans h (by simp))) <$>
        argumentsTail { call with keywords := call.keywords.insert t.text value } depth rest
    else if !call.keywords.entries.isEmpty then malformed .positionalAfterKeyword
    else do
      let ⟨value, rest, depth, h⟩ ← or depth (t :: behind)
      Found.widen h <$>
        argumentsTail { call with positional := call.positional ++ [value] } depth rest
termination_by 11 * ts.length + 10
decreasing_by all_goals simp only [List.length_drop, List.length_cons] at *; omega

def argumentsTail (call : CallArgs) (depth : Nat) (ts : List Token) : Run (Found CallArgs ts) :=
  match ts with
  | [] => malformed .invalid
  | t :: behind =>
    if t.is .punctuation "," then Found.widen (Nat.le_succ _) <$> arguments call depth behind
    else if t.is .punctuation ")" then pure ⟨call, behind, depth, Nat.le_succ _⟩
    else malformed .invalid
termination_by 11 * ts.length + 0

def atom (depth : Nat) (ts : List Token) : Run (Found Value ts) :=
  match ts with
  | [] => malformed .invalid
  | t :: behind =>
    if t.is .punctuation "(" then do
      match ← or depth behind with
      | ⟨_, [], _, _⟩ => malformed .invalid
      | ⟨inner, close :: rest, depth, h⟩ =>
        if close.is .punctuation ")" then
          pure ⟨inner, rest, depth, Nat.le_succ_of_le (Nat.le_trans (Nat.le_succ _) h)⟩
        else malformed .invalid
    else do
      let value ← tokenValue depth t
      pure ⟨value, behind, depth, Nat.le_succ _⟩
termination_by 11 * ts.length + 0

end

/-- All the tokens as one expression. -/
def expression (ts : List Token) : Run Value := do
  match ← or 0 ts with
  | ⟨value, [], _, _⟩ => pure value
  | ⟨_, _ :: _, _, _⟩ => malformed .invalid

/-- The levels of the grammar, and the arguments of a call. -/
inductive Level where
  | or | and | not | comparison | sum | term | unary | power | trailed | arguments | atom

namespace Level

def Answer : Level → Type
  | .arguments => CallArgs
  | _ => Value

def read : (level : Level) → Nat → (ts : List Token) → Run (Found level.Answer ts)
  | .or => OnePass.or
  | .and => OnePass.and
  | .not => OnePass.not
  | .comparison => OnePass.comparison
  | .sum => OnePass.sum
  | .term => OnePass.term
  | .unary => OnePass.unary
  | .power => OnePass.power
  | .trailed => OnePass.trailed
  | .arguments => OnePass.arguments {}
  | .atom => OnePass.atom

end Level

end OnePass
end CalcShell.Calc
