import CalcShell.Calc.Grammar
import CalcShell.Proofs.Calc.Spacing

/-! The levels of the grammar, each told by the next one: a level reads an expression of the next level
and goes on as long as operators of its own come. -/
namespace CalcShell.Calc
namespace Grammar

def Parsed.view {ts : List Token} (p : Parsed ts) : Expr × List Token := (p.expr, p.rest)

def ParsedArgs.view {ts : List Token} (p : ParsedArgs ts) : Args × List Token := (p.args, p.rest)

/-! ### Levels -/

/-- What a level reads from the front of a token list, and what stands behind it. -/
def read : Nat → List Token → Expr × List Token
  | 0, ts => (or ts).view
  | 1, ts => (and ts).view
  | 2, ts => (not ts).view
  | 3, ts => (comparison ts).view
  | 4, ts => (sum ts).view
  | 5, ts => (term ts).view
  | 6, ts => (unary ts).view
  | 7, ts => (power ts).view
  | 8, ts => (trailed ts).view
  | _, ts => (atom ts).view

/-- At most one comparison goes on behind a sum. -/
def comparisonTail (left : Expr) : List Token → Expr × List Token
  | [] => (left, [])
  | t :: behind =>
    match compareOp? t with
    | some op => (.compare op left (read 4 behind).1, (read 4 behind).2)
    | none => (left, t :: behind)

/-- At most one exponent goes on behind a base. -/
def powerTail (base : Expr) : List Token → Expr × List Token
  | [] => (base, [])
  | t :: behind =>
    match binaryOp? [.pow] t with
    | some op => (.binary op base (read 6 behind).1, (read 6 behind).2)
    | none => (base, t :: behind)

/-- How a level goes on behind an expression of the next one. -/
def goOn : Nat → Expr → List Token → Expr × List Token
  | 0, left, ts => (orTail left ts).view
  | 1, left, ts => (andTail left ts).view
  | 3, left, ts => comparisonTail left ts
  | 4, left, ts => (sumTail left ts).view
  | 5, left, ts => (termTail left ts).view
  | 7, left, ts => powerTail left ts
  | 8, left, ts => (trailers left ts).view
  | _, left, ts => (left, ts)

/-- The tokens with which a level goes on. -/
def continues : Nat → Token → Bool
  | 0, t => t.is .keyword "or"
  | 1, t => t.is .keyword "and"
  | 3, t => (compareOp? t).isSome
  | 4, t => (binaryOp? sumOps t).isSome
  | 5, t => (binaryOp? termOps t).isSome
  | 7, t => (binaryOp? [.pow] t).isSome
  | 8, t => t.is .punctuation "(" || t.is .punctuation "."
  | _, _ => false

/-- The tokens that a level does not leave to the next one. -/
def begins : Nat → Token → Bool
  | 2, t => t.is .keyword "not"
  | 6, t => (signOf? t).isSome
  | _, _ => false

/-- A level that does not begin with a token of its own reads the next one and goes on. -/
lemma read_eq_goOn {k : Nat} (low : k < 9) {ts : List Token}
    (plain : ∀ t ∈ ts.head?, begins k t = false) :
    read k ts = goOn k (read (k + 1) ts).1 (read (k + 1) ts).2 := by
  match k, low with
  | 0, _ =>
    change (or ts).view = _
    rw [or]
    rfl
  | 1, _ =>
    change (and ts).view = _
    rw [and]
    rfl
  | 2, _ =>
    change (not ts).view = (comparison ts).view
    cases ts with
    | nil => rw [not]
    | cons t behind =>
      have noNot : t.is .keyword "not" = false := plain t rfl
      rw [not, noNot, if_neg Bool.false_ne_true]
  | 3, _ =>
    -- A comparison, like a power, looks at what is behind its operand itself and has no tail to call.
    change (comparison ts).view = comparisonTail (sum ts).expr (sum ts).rest
    rw [comparison]
    rcases sum ts with ⟨left, _ | ⟨t, behind⟩, h⟩
    · rfl
    · rw [comparisonTail]
      dsimp only
      cases compareOp? t <;> rfl
  | 4, _ =>
    change (sum ts).view = _
    rw [sum]
    rfl
  | 5, _ =>
    change (term ts).view = _
    rw [term]
    rfl
  | 6, _ =>
    change (unary ts).view = (power ts).view
    cases ts with
    | nil => rw [unary]
    | cons t behind =>
      have noSign : signOf? t = none := by simpa [begins] using plain t rfl
      rw [unary]
      dsimp only
      rw [noSign]
  | 7, _ =>
    change (power ts).view = powerTail (trailed ts).expr (trailed ts).rest
    rw [power]
    rcases trailed ts with ⟨base, _ | ⟨t, behind⟩, h⟩
    · rfl
    · rw [powerTail]
      dsimp only
      cases binaryOp? [.pow] t <;> rfl
  | 8, _ =>
    change (trailed ts).view = _
    rw [trailed]
    rfl

lemma goOn_nil (k : Nat) (left : Expr) : goOn k left [] = (left, []) := by
  match k with
  | 0 => change (orTail left []).view = _; rw [orTail]; rfl
  | 1 => change (andTail left []).view = _; rw [andTail]; rfl
  | 4 => change (sumTail left []).view = _; rw [sumTail]; rfl
  | 5 => change (termTail left []).view = _; rw [termTail]; rfl
  | 8 => change (trailers left []).view = _; rw [trailers]; rfl
  | 2 | 3 | 6 | 7 | n + 9 => rfl

lemma goOn_cons {k : Nat} {t : Token} (stops : continues k t = false) (left : Expr)
    (behind : List Token) : goOn k left (t :: behind) = (left, t :: behind) := by
  match k, stops with
  | 0, stops =>
    have noOr : t.is .keyword "or" = false := stops
    change (orTail left (t :: behind)).view = _
    rw [orTail, noOr, if_neg Bool.false_ne_true]
    rfl
  | 1, stops =>
    have noAnd : t.is .keyword "and" = false := stops
    change (andTail left (t :: behind)).view = _
    rw [andTail, noAnd, if_neg Bool.false_ne_true]
    rfl
  | 3, stops =>
    have none : compareOp? t = none := by simpa [continues] using stops
    rw [goOn, comparisonTail, none]
  | 4, stops =>
    have none : binaryOp? sumOps t = none := by simpa [continues] using stops
    change (sumTail left (t :: behind)).view = _
    rw [sumTail]
    dsimp only
    rw [none]
    rfl
  | 5, stops =>
    have none : binaryOp? termOps t = none := by simpa [continues] using stops
    change (termTail left (t :: behind)).view = _
    rw [termTail]
    dsimp only
    rw [none]
    rfl
  | 7, stops =>
    have none : binaryOp? [.pow] t = none := by simpa [continues] using stops
    rw [goOn, powerTail, none]
  | 8, stops =>
    rw [continues, Bool.or_eq_false_iff] at stops
    change (trailers left (t :: behind)).view = _
    rw [trailers.eq_def]
    dsimp only
    rw [stops.1, stops.2, if_neg Bool.false_ne_true, if_neg Bool.false_ne_true]
    rfl
  | 2, _ | 6, _ | n + 9, _ => rfl

/-- A level stops in front of a token with which it does not go on. -/
lemma goOn_of_stops {k : Nat} {ts : List Token} (stops : ∀ t ∈ ts.head?, continues k t = false)
    (left : Expr) : goOn k left ts = (left, ts) := by
  cases ts with
  | nil => exact goOn_nil k left
  | cons t behind => exact goOn_cons (stops t rfl) left behind

variable {t : Token} {left : Expr} {behind : List Token}

/-! ### Places in the line do not matter -/

lemma is_of_unplaced {kind : TokenKind} {text : String}
    (is : t.unplaced = { kind, text := bytes text, pos := 0 }) : t.is kind text := by
  change t.unplaced.is kind text
  rw [is, Token.is, beq_self_eq_true, beq_self_eq_true, Bool.true_and]

lemma continues_unplaced (j : Nat) (t : Token) : continues j t.unplaced = continues j t := by
  match j with
  | 0 | 1 | 2 | 3 | 4 | 5 | 6 | 7 | 8 | n + 9 => rfl

lemma begins_unplaced (j : Nat) (t : Token) : begins j t.unplaced = begins j t := by
  match j with
  | 0 | 1 | 2 | 3 | 4 | 5 | 6 | n + 7 => rfl

lemma isBinding_unplaced (ts : List Token) : isBinding (ts.map Token.unplaced) = isBinding ts := by
  match ts with
  | [] | [_] | _ :: _ :: _ => rfl

/-- Levels begin with keywords and operators only. -/
lemma begins_of_kind (noKeyword : t.kind ≠ .keyword) (noOperator : t.kind ≠ .operator) (j : Nat) :
    begins j t = false := by
  match j with
  | 2 => simp [begins, Token.is, noKeyword]
  | 6 => simp [begins, signOf?, Token.is, noOperator]
  | 0 | 1 | 3 | 4 | 5 | n + 7 => rfl

/-! ### One step of a level -/

lemma goOn_or (is : t.is .keyword "or") :
    goOn 0 left (t :: behind) = goOn 0 (.or left (read 1 behind).1) (read 1 behind).2 := by
  change (orTail left (t :: behind)).view = _
  rw [orTail, if_pos is]
  rfl

lemma goOn_and (is : t.is .keyword "and") :
    goOn 1 left (t :: behind) = goOn 1 (.and left (read 2 behind).1) (read 2 behind).2 := by
  change (andTail left (t :: behind)).view = _
  rw [andTail, if_pos is]
  rfl

lemma goOn_sum {op : BinaryOp} (is : binaryOp? sumOps t = some op) :
    goOn 4 left (t :: behind) = goOn 4 (.binary op left (read 5 behind).1) (read 5 behind).2 := by
  change (sumTail left (t :: behind)).view = _
  rw [sumTail]
  dsimp only
  rw [is]
  rfl

lemma goOn_term {op : BinaryOp} (is : binaryOp? termOps t = some op) :
    goOn 5 left (t :: behind) = goOn 5 (.binary op left (read 6 behind).1) (read 6 behind).2 := by
  change (termTail left (t :: behind)).view = _
  rw [termTail]
  dsimp only
  rw [is]
  rfl

lemma goOn_compare {op : CompareOp} (is : compareOp? t = some op) :
    goOn 3 left (t :: behind) = (.compare op left (read 4 behind).1, (read 4 behind).2) := by
  rw [goOn, comparisonTail, is]

lemma goOn_power {op : BinaryOp} (is : binaryOp? [.pow] t = some op) :
    goOn 7 left (t :: behind) = (.binary op left (read 6 behind).1, (read 6 behind).2) := by
  rw [goOn, powerTail, is]

lemma goOn_call (is : t.is .punctuation "(") :
    goOn 8 left (t :: behind) =
      goOn 8 (.call left (arguments false behind).view.1) (arguments false behind).view.2 := by
  change (trailers left (t :: behind)).view = _
  rw [trailers.eq_def]
  dsimp only
  rw [if_pos is]
  rfl

lemma goOn_member (is : t.is .punctuation ".") {name : Token} (named : name.kind = .name) :
    goOn 8 left (t :: name :: behind) = goOn 8 (.attribute left name.text) behind := by
  have noCall : t.is .punctuation "(" = false := by
    rw [Token.is, Bool.and_eq_true, beq_iff_eq, beq_iff_eq] at is
    rw [Token.is, is.1, is.2]
    decide
  change (trailers left (t :: name :: behind)).view = _
  rw [trailers.eq_def]
  dsimp only
  rw [noCall, if_neg Bool.false_ne_true, if_pos is, if_pos named]
  rfl

lemma read_not (is : t.is .keyword "not") :
    read 2 (t :: behind) = (.not (read 2 behind).1, (read 2 behind).2) := by
  change (not (t :: behind)).view = _
  rw [not, if_pos is]
  rfl

lemma read_sign {negative : Bool} (is : signOf? t = some negative) :
    read 6 (t :: behind) = (.sign negative (read 6 behind).1, (read 6 behind).2) := by
  change (unary (t :: behind)).view = _
  rw [unary]
  dsimp only
  rw [is]
  rfl

lemma read_atom {e : Expr} (other : t.is .punctuation "(" = false) (is : atomExpr t = e)
    (sound : ∀ m, e ≠ .mistake m) : read 9 (t :: behind) = (e, behind) := by
  change (atom (t :: behind)).view = _
  rw [atom.eq_def]
  dsimp only
  rw [other, if_neg Bool.false_ne_true, is]
  cases e with
  | mistake m => exact absurd rfl (sound m)
  | _ => rfl

lemma read_parenthesized {close : Token} {e : Expr} {rest : List Token}
    (is : t.is .punctuation "(") (inside : read 0 behind = (e, close :: rest))
    (isClose : close.is .punctuation ")") : read 9 (t :: behind) = (e, rest) := by
  change (atom (t :: behind)).view = _
  change (or behind).view = _ at inside
  rw [atom.eq_def]
  dsimp only
  rw [if_pos is]
  generalize or behind = parsed at inside
  obtain ⟨inner, rest', h⟩ := parsed
  obtain ⟨rfl, rfl⟩ := Prod.mk.inj inside
  dsimp only
  rw [if_pos isClose]
  rfl

variable {named : Bool}

lemma arguments_close (is : t.is .punctuation ")") :
    (arguments named (t :: behind)).view = (.closed, behind) := by
  rw [arguments.eq_def]
  dsimp only
  rw [if_pos is]
  rfl

lemma arguments_positional (other : t.is .punctuation ")" = false)
    (plain : isBinding (t :: behind) = false) :
    (arguments false (t :: behind)).view =
      (.positional (read 0 (t :: behind)).1 (argumentsTail false (read 0 (t :: behind)).2).view.1,
        (argumentsTail false (read 0 (t :: behind)).2).view.2) := by
  rw [arguments.eq_def]
  dsimp only
  rw [other, plain, if_neg Bool.false_ne_true, if_neg Bool.false_ne_true, if_neg Bool.false_ne_true]
  rfl

lemma arguments_keyword {sign : Token} (isName : t.kind = .name) (is : sign.is .operator "=") :
    (arguments named (t :: sign :: behind)).view =
      (.keyword t.text (read 0 behind).1 (argumentsTail true (read 0 behind).2).view.1,
        (argumentsTail true (read 0 behind).2).view.2) := by
  have other : t.is .punctuation ")" = false := by rw [Token.is, isName]; rfl
  have binding : isBinding (t :: sign :: behind) = true := by simp [isBinding, isName, is]
  rw [arguments.eq_def]
  dsimp only
  rw [other, binding, if_neg Bool.false_ne_true, if_pos rfl]
  rfl

lemma argumentsTail_comma (is : t.is .punctuation ",") :
    (argumentsTail named (t :: behind)).view = (arguments named behind).view := by
  rw [argumentsTail.eq_def]
  dsimp only
  rw [if_pos is]
  rfl

lemma argumentsTail_close (is : t.is .punctuation ")") :
    (argumentsTail named (t :: behind)).view = (.closed, behind) := by
  have other : t.is .punctuation "," = false := by
    rw [Token.is, Bool.and_eq_true, beq_iff_eq, beq_iff_eq] at is
    rw [Token.is, is.1, is.2]
    decide
  rw [argumentsTail.eq_def]
  dsimp only
  rw [other, if_neg Bool.false_ne_true, if_pos is]
  rfl

end Grammar
end CalcShell.Calc
