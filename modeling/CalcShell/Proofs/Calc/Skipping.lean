import CalcShell.Proofs.Calc.Depth
import Mathlib.Tactic.SplitIfs

/-! Reading in one pass is reading a tree first and evaluating it, or passing over it, then. So an operand
that is skipped is read up to the place up to which it would be evaluated, and has no effect. -/
namespace CalcShell.Calc

namespace Grammar

/-! ### What is found where a tree was read -/

/-- The value of a tree, at a depth that stays as it is. -/
def Parsed.found {ts : List Token} (p : Parsed ts) (k : Nat) : Run (Found Value ts) :=
  (fun v => ⟨v, p.rest, k, p.rest_le⟩) <$> p.expr.under k

def ParsedArgs.found {ts : List Token} (p : ParsedArgs ts) (call : CallArgs) (k : Nat) :
    Run (Found CallArgs ts) :=
  (fun v => ⟨v, p.rest, k, p.rest_le⟩) <$> p.args.under call k

variable {inner ts : List Token}

namespace Parsed

lemma found_mk (e : Expr) (le : inner.length ≤ ts.length) (k : Nat) :
    (⟨e, inner, le⟩ : Parsed ts).found k = e.under k >>= fun v => pure ⟨v, inner, k, le⟩ := by
  rw [found, bind_pure_comp]

lemma found_bind {α : Type} (p : Parsed ts) (k : Nat) (f : Found Value ts → Run α) :
    p.found k >>= f = p.expr.under k >>= fun v => f ⟨v, p.rest, k, p.rest_le⟩ := by
  rw [found, bind_map_left]

lemma found_widen (p : Parsed inner) (h : inner.length ≤ ts.length) (k : Nat) :
    (p.widen h).found k = Found.widen h <$> p.found k := by
  rw [found, found, ← comp_map]
  rfl

lemma found_mistaken (m : Mistake) (k : Nat) :
    (mistaken (.mistake m) : Parsed ts).found k = OnePass.malformed m := by
  rw [found, mistaken, under_mistake]
  rfl

lemma found_broken (e : Expr) (m : Mistake) (k : Nat) :
    (mistaken (.broken e m) : Parsed ts).found k = e.under k >>= fun _ => OnePass.malformed m := by
  rw [mistaken, found_mk, under_broken, bind_assoc]
  rfl

section
variable {e : Expr} {p : Parsed inner} {k : Nat}

/-- A level that goes on behind a value. -/
lemma found_goOn {first : Run Value} {rest : List Token} {tail : Value → Run (Found Value rest)}
    {q : Parsed rest} (h : rest.length ≤ ts.length) (goesOn : (first >>= tail) = q.found k) :
    (first >>= fun v => Found.widen h <$> tail v) = (q.widen h).found k := by
  rw [found_widen, ← goesOn, map_bind]

lemma found_binary (op : BinaryOp) {tail : Value → Run (Found Value p.rest)} {q : Parsed p.rest}
    (h : p.rest.length ≤ ts.length)
    (goesOn : ((Expr.binary op e p.expr).under k >>= tail) = q.found k) :
    (e.under k >>= fun v => p.expr.under k >>= fun w =>
      OnePass.atTop k v (Run.ofExcept (op.apply v w)) >>= fun r => Found.widen h <$> tail r) =
        (q.widen h).found k := by
  rw [← found_goOn h goesOn, under_binary]
  simp only [bind_assoc]

/-- A level that goes on behind an operand which some values of the one before it decide not to need. -/
lemma found_decided {node : Expr} {decides : Value → Bool}
    (isNode : node.under k = e.under k >>= fun v =>
      let decided := k == 0 && decides v
      p.expr.under (if decided then k + 1 else k) >>= fun w => pure (if decided then v else w))
    (tail : Value → Nat → Run (Found Value p.rest)) {q : Parsed p.rest}
    (h : p.rest.length ≤ ts.length) (goesOn : (node.under k >>= (tail · k)) = q.found k) :
    (e.under k >>= fun v =>
      let decided := k == 0 && decides v
      p.expr.under (if decided then k + 1 else k) >>= fun w =>
        Found.widen h <$> tail (if decided then v else w)
          (if decided then (if decided then k + 1 else k) - 1 else if decided then k + 1 else k)) =
      (q.widen h).found k := by
  rw [← found_goOn h goesOn, isNode]
  simp only [bind_assoc, pure_bind]
  refine bind_congr fun v => ?_
  -- Behind the operand the depth is what it was in front of it, one deeper or not.
  cases k == 0 && decides v <;> rfl

end

end Parsed

namespace ParsedArgs

variable (call : CallArgs)

lemma found_bind {α : Type} (p : ParsedArgs ts) (k : Nat) (f : Found CallArgs ts → Run α) :
    p.found call k >>= f = p.args.under call k >>= fun v => f ⟨v, p.rest, k, p.rest_le⟩ := by
  rw [found, bind_map_left]

lemma found_mistaken (m : Mistake) (k : Nat) :
    (mistaken m : ParsedArgs ts).found call k = OnePass.malformed m := by
  rw [found, mistaken, argsUnder_mistake]
  rfl

lemma found_closed (le : inner.length ≤ ts.length) (k : Nat) :
    (⟨.closed, inner, le⟩ : ParsedArgs ts).found call k = pure ⟨call, inner, k, le⟩ := by
  rw [found, argsUnder_closed, map_pure]

lemma found_widen (p : ParsedArgs inner) (h : inner.length ≤ ts.length) (k : Nat) :
    (p.widen id h).found call k = Found.widen h <$> p.found call k := by
  rw [found, found, ← comp_map]
  rfl

lemma found_positional (e : Expr) (p : ParsedArgs inner) (h : inner.length ≤ ts.length) (k : Nat) :
    (p.widen (.positional e) h).found call k = e.under k >>= fun v =>
      Found.widen h <$> p.found { call with positional := call.positional ++ [v] } k := by
  simp only [found, widen, argsUnder_positional, map_bind, Functor.map_map]
  rfl

lemma found_keyword (name : Bytes) (e : Expr) (p : ParsedArgs inner) (h : inner.length ≤ ts.length)
    (k : Nat) : (p.widen (.keyword name e) h).found call k = e.under k >>= fun v =>
      Found.widen h <$> p.found { call with keywords := call.keywords.insert name v } k := by
  simp only [found, widen, argsUnder_keyword, map_bind, Functor.map_map]
  rfl

end ParsedArgs

end Grammar

/-! ### Phrases -/

/-- What a level reads: how it is evaluated, its first mistake, a value in its place where nothing is
evaluated, and what stands behind it. -/
structure Phrase (α : Type) (ts : List Token) where
  eval : Run α
  mistake? : Option Mistake
  passed : α
  rest : List Token
  rest_le : rest.length ≤ ts.length
  /-- What can be evaluated has no mistake. -/
  sound : ∀ {m m' : Machine} {v : α}, eval.run m = .ok v m' → mistake? = none

namespace Phrase

variable {α : Type} {ts : List Token}

/-- At the depth zero a phrase is evaluated; deeper only its mistake is looked for. -/
def found (p : Phrase α ts) : Nat → Run (Found α ts)
  | 0 => (fun v => ⟨v, p.rest, 0, p.rest_le⟩) <$> p.eval
  | k + 1 => (fun _ => ⟨p.passed, p.rest, k + 1, p.rest_le⟩) <$> refuse p.mistake?

variable {p : Phrase α ts} {m m' : Machine}

lemma of_found_zero {found : Found α ts} (ok : (p.found 0).run m = .ok found m') :
    found.rest = p.rest ∧ p.mistake? = none := by
  rw [Phrase.found, ← bind_pure_comp] at ok
  obtain ⟨v, m₁, evaluated, returned⟩ := Run.exists_of_bind ok
  cases returned
  exact ⟨rfl, p.sound evaluated⟩

lemma found_of_none (sound : p.mistake? = none) (k : Nat) (m : Machine) :
    (p.found (k + 1)).run m = .ok ⟨p.passed, p.rest, k + 1, p.rest_le⟩ m := by
  rw [Phrase.found, sound]
  rfl

lemma found_of_some {mistake : Mistake} (isMistake : p.mistake? = some mistake) (k : Nat) (m : Machine) :
    (p.found (k + 1)).run m = .error (.failed (.malformed mistake)) m := by
  rw [Phrase.found, isMistake]
  rfl

end Phrase

namespace Grammar

variable {ts : List Token}

def Parsed.phrase (p : Parsed ts) : Phrase Value ts where
  eval := p.expr.eval
  mistake? := p.expr.firstMistake?
  passed := p.expr.passed
  rest := p.rest
  rest_le := p.rest_le
  sound := p.expr.firstMistake?_of_eval

def ParsedArgs.phrase (p : ParsedArgs ts) : Phrase CallArgs ts where
  eval := p.args.eval {}
  mistake? := p.args.firstMistake?
  passed := p.args.passed {}
  rest := p.rest
  rest_le := p.rest_le
  sound := p.args.firstMistake?_of_eval

lemma Parsed.found_phrase (p : Parsed ts) (k : Nat) : p.phrase.found k = p.found k := by
  cases k with
  | zero => rfl
  | succ k =>
    rw [found, Expr.under, Functor.map_map]
    rfl

lemma ParsedArgs.found_phrase (p : ParsedArgs ts) (k : Nat) : p.phrase.found k = p.found {} k := by
  cases k with
  | zero => rfl
  | succ k =>
    rw [found, Args.under, Functor.map_map]
    rfl

end Grammar

/-! ### One pass -/

namespace OnePass

open Grammar (Parsed ParsedArgs)

lemma tokenValue_eq (k : Nat) (t : Token) : tokenValue k t = (Grammar.atomExpr t).under k := by
  rw [tokenValue, Grammar.atomExpr]
  cases t.kind with
  | number =>
    dsimp only
    cases Number.read? t.text with
    | some x => exact (under_literal k _).symm
    | none => exact (under_mistake k _).symm
  | string =>
    dsimp only
    cases unquote? t.text with
    | some text => exact (under_literal k _).symm
    | none => exact (under_mistake k _).symm
  | name => exact (under_name k _).symm
  | keyword =>
    dsimp only
    cases Grammar.keywordValue? t.text with
    | some value => exact (under_literal k _).symm
    | none => exact (under_mistake k _).symm
  | _ => exact (under_mistake k _).symm

/-- A call to which a keyword argument was added has one. -/
lemma isEmpty_insert (table : Table Value) (name : Bytes) (value : Value) :
    (table.insert name value).entries.isEmpty = false := by
  rw [Table.entries_insert]
  cases table.entries with
  | nil => rfl
  | cons entry rest =>
    rw [Table.insertEntry]
    split_ifs <;> rfl

mutual

-- The induction is that of the definitions, on the number of tokens and then the level. A tail has the
-- value of a tree, not the tree, so its equation is about the two actions one after the other.
lemma or_eq (k : Nat) (ts : List Token) : or k ts = (Grammar.or ts).found k := by
  have shorter := (Grammar.and ts).rest_le
  rw [or, and_eq k ts, Parsed.found_bind, Grammar.or]
  exact Parsed.found_goOn shorter (orTail_eq (Grammar.and ts).expr k (Grammar.and ts).rest)
termination_by 11 * ts.length + 9

/-- A level goes on behind the value of a tree as it goes on behind the tree. -/
lemma orTail_eq (e : Expr) (k : Nat) (ts : List Token) :
    (e.under k >>= fun v => orTail v k ts) = (Grammar.orTail e ts).found k := by
  cases ts with
  | nil =>
    simp only [orTail, Grammar.orTail]
    exact (Parsed.found_mk ..).symm
  | cons t behind =>
    simp only [orTail, Grammar.orTail]
    by_cases is : t.is .keyword "or"
    · have shorter := (Grammar.and behind).rest_le
      simp only [if_pos is, and_eq _ behind, Parsed.found_bind]
      exact Parsed.found_decided (under_or ..) (orTail · · _) _ (orTail_eq _ k _)
    · simp only [if_neg is]
      exact (Parsed.found_mk ..).symm
termination_by 11 * ts.length + 0

lemma and_eq (k : Nat) (ts : List Token) : and k ts = (Grammar.and ts).found k := by
  have shorter := (Grammar.not ts).rest_le
  rw [and, not_eq k ts, Parsed.found_bind, Grammar.and]
  exact Parsed.found_goOn shorter (andTail_eq (Grammar.not ts).expr k (Grammar.not ts).rest)
termination_by 11 * ts.length + 8

lemma andTail_eq (e : Expr) (k : Nat) (ts : List Token) :
    (e.under k >>= fun v => andTail v k ts) = (Grammar.andTail e ts).found k := by
  cases ts with
  | nil =>
    simp only [andTail, Grammar.andTail]
    exact (Parsed.found_mk ..).symm
  | cons t behind =>
    simp only [andTail, Grammar.andTail]
    by_cases is : t.is .keyword "and"
    · have shorter := (Grammar.not behind).rest_le
      simp only [if_pos is, not_eq _ behind, Parsed.found_bind]
      exact Parsed.found_decided (under_and ..) (andTail · · _) _ (andTail_eq _ k _)
    · simp only [if_neg is]
      exact (Parsed.found_mk ..).symm
termination_by 11 * ts.length + 0

lemma not_eq (k : Nat) (ts : List Token) : not k ts = (Grammar.not ts).found k := by
  cases ts with
  | nil => rw [not, Grammar.not, comparison_eq k []]
  | cons t behind =>
    rw [not, Grammar.not]
    by_cases is : t.is .keyword "not"
    · rw [if_pos is, if_pos is, not_eq k behind, Parsed.found_bind]
      exact .trans (by rw [under_not, bind_assoc]) (Parsed.found_mk (.not _) _ k).symm
    · rw [if_neg is, if_neg is, comparison_eq k (t :: behind)]
termination_by 11 * ts.length + 7

lemma comparison_eq (k : Nat) (ts : List Token) :
    comparison k ts = (Grammar.comparison ts).found k := by
  rw [comparison, sum_eq k ts, Parsed.found_bind, Grammar.comparison]
  generalize Grammar.sum ts = p
  obtain ⟨left, _ | ⟨t, behind⟩, h⟩ := p
  · exact (Parsed.found_mk ..).symm
  · dsimp only
    cases Grammar.compareOp? t with
    | none => exact (Parsed.found_mk ..).symm
    | some op =>
      simp only [sum_eq k behind, Parsed.found_bind]
      rw [Parsed.found_mk, under_compare]
      simp only [bind_assoc]
termination_by 11 * ts.length + 6
decreasing_by
  · omega
  · simp only [List.length_cons] at *
    omega

lemma sum_eq (k : Nat) (ts : List Token) : sum k ts = (Grammar.sum ts).found k := by
  have shorter := (Grammar.term ts).rest_le
  rw [sum, term_eq k ts, Parsed.found_bind, Grammar.sum]
  exact Parsed.found_goOn shorter (sumTail_eq (Grammar.term ts).expr k (Grammar.term ts).rest)
termination_by 11 * ts.length + 5

lemma sumTail_eq (e : Expr) (k : Nat) (ts : List Token) :
    (e.under k >>= fun v => sumTail v k ts) = (Grammar.sumTail e ts).found k := by
  cases ts with
  | nil =>
    simp only [sumTail, Grammar.sumTail]
    exact (Parsed.found_mk ..).symm
  | cons t behind =>
    simp only [sumTail, Grammar.sumTail]
    cases Grammar.binaryOp? Grammar.sumOps t with
    | none => exact (Parsed.found_mk ..).symm
    | some op =>
      have shorter := (Grammar.term behind).rest_le
      simp only [term_eq k behind, Parsed.found_bind]
      exact Parsed.found_binary op _ (sumTail_eq _ k _)
termination_by 11 * ts.length + 0

lemma term_eq (k : Nat) (ts : List Token) : term k ts = (Grammar.term ts).found k := by
  have shorter := (Grammar.unary ts).rest_le
  rw [term, unary_eq k ts, Parsed.found_bind, Grammar.term]
  exact Parsed.found_goOn shorter (termTail_eq (Grammar.unary ts).expr k (Grammar.unary ts).rest)
termination_by 11 * ts.length + 4

lemma termTail_eq (e : Expr) (k : Nat) (ts : List Token) :
    (e.under k >>= fun v => termTail v k ts) = (Grammar.termTail e ts).found k := by
  cases ts with
  | nil =>
    simp only [termTail, Grammar.termTail]
    exact (Parsed.found_mk ..).symm
  | cons t behind =>
    simp only [termTail, Grammar.termTail]
    cases Grammar.binaryOp? Grammar.termOps t with
    | none => exact (Parsed.found_mk ..).symm
    | some op =>
      have shorter := (Grammar.unary behind).rest_le
      simp only [unary_eq k behind, Parsed.found_bind]
      exact Parsed.found_binary op _ (termTail_eq _ k _)
termination_by 11 * ts.length + 0

lemma unary_eq (k : Nat) (ts : List Token) : unary k ts = (Grammar.unary ts).found k := by
  cases ts with
  | nil => rw [unary, Grammar.unary, power_eq k []]
  | cons t behind =>
    rw [unary, Grammar.unary]
    dsimp only
    cases Grammar.signOf? t with
    | none => exact power_eq k (t :: behind)
    | some negative =>
      dsimp only
      rw [unary_eq k behind, Parsed.found_bind]
      exact .trans (by rw [under_sign, bind_assoc]) (Parsed.found_mk (.sign negative _) _ k).symm
termination_by 11 * ts.length + 3

lemma power_eq (k : Nat) (ts : List Token) :
    power k ts = (Grammar.power ts).found k := by
  rw [power, trailed_eq k ts, Parsed.found_bind, Grammar.power]
  generalize Grammar.trailed ts = p
  obtain ⟨base, _ | ⟨t, behind⟩, h⟩ := p
  · exact (Parsed.found_mk ..).symm
  · dsimp only
    cases Grammar.binaryOp? [.pow] t with
    | none => exact (Parsed.found_mk ..).symm
    | some op =>
      simp only [unary_eq k behind, Parsed.found_bind]
      rw [Parsed.found_mk, under_binary]
      simp only [bind_assoc]
termination_by 11 * ts.length + 2
decreasing_by
  · omega
  · simp only [List.length_cons] at *
    omega

lemma trailed_eq (k : Nat) (ts : List Token) : trailed k ts = (Grammar.trailed ts).found k := by
  have shorter := (Grammar.atom ts).rest_le
  rw [trailed, atom_eq k ts, Parsed.found_bind, Grammar.trailed]
  exact Parsed.found_goOn shorter (trailers_eq (Grammar.atom ts).expr k (Grammar.atom ts).rest)
termination_by 11 * ts.length + 1

lemma trailers_eq (e : Expr) (k : Nat) (ts : List Token) :
    (e.under k >>= fun v => trailers v k ts) = (Grammar.trailers e ts).found k := by
  cases ts with
  | nil =>
    simp only [trailers, Grammar.trailers]
    exact (Parsed.found_mk ..).symm
  | cons t behind =>
    have step (v : Value) := trailers.eq_def v k (t :: behind)
    rw [Grammar.trailers.eq_def]
    dsimp only at step ⊢
    simp only [step]
    by_cases isCall : t.is .punctuation "("
    · have shorter := (Grammar.arguments false behind).rest_le
      have le : (Grammar.arguments false behind).rest.length ≤ (t :: behind).length :=
        Nat.le_succ_of_le shorter
      have others : arguments {} k behind = (Grammar.arguments false behind).found {} k :=
        arguments_eq {} k behind
      have goesOn := Parsed.found_goOn le (trailers_eq (.call e (Grammar.arguments false behind).args) k
        (Grammar.arguments false behind).rest)
      rw [under_call] at goesOn
      simp only [if_pos isCall, others, ParsedArgs.found_bind]
      simpa only [bind_assoc] using goesOn
    simp only [if_neg isCall]
    by_cases isMember : t.is .punctuation "."
    · simp only [if_pos isMember]
      rcases behind with _ | ⟨member, rest⟩
      · exact (Parsed.found_broken ..).symm
      dsimp only
      by_cases named : member.kind = .name
      · simp only [if_pos named]
        have le : rest.length ≤ (t :: member :: rest).length := Nat.le_succ_of_le (Nat.le_succ _)
        have goesOn := Parsed.found_goOn le (trailers_eq (.attribute e member.text) k rest)
        rw [under_attribute] at goesOn
        simpa only [bind_assoc] using goesOn
      · simp only [if_neg named]
        exact (Parsed.found_broken ..).symm
    · simp only [if_neg isMember]
      exact (Parsed.found_mk ..).symm
termination_by 11 * ts.length + 0

lemma arguments_eq (call : CallArgs) (k : Nat) (ts : List Token) :
    arguments call k ts =
      (Grammar.arguments (!call.keywords.entries.isEmpty) ts).found call k := by
  cases ts with
  | nil =>
    simp only [arguments, Grammar.arguments]
    exact (ParsedArgs.found_mistaken ..).symm
  | cons t behind =>
    rw [arguments.eq_def, Grammar.arguments.eq_def]
    dsimp only
    by_cases isClose : t.is .punctuation ")"
    · rw [if_pos isClose, if_pos isClose]
      exact (ParsedArgs.found_closed ..).symm
    rw [if_neg isClose, if_neg isClose]
    by_cases binding : Grammar.isBinding (t :: behind)
    · have shorter := (Grammar.or (behind.drop 1)).rest_le
      have dropped : (behind.drop 1).length ≤ behind.length := (List.drop_sublist 1 behind).length_le
      rw [if_pos binding, if_pos binding, or_eq k (behind.drop 1), Parsed.found_bind,
        ParsedArgs.found_keyword]
      refine bind_congr fun v => ?_
      rw [argumentsTail_eq _ k (Grammar.or (behind.drop 1)).rest, isEmpty_insert, Bool.not_false]
    rw [if_neg binding, if_neg binding]
    by_cases named : (!call.keywords.entries.isEmpty) = true
    · rw [if_pos named, if_pos named]
      exact (ParsedArgs.found_mistaken ..).symm
    · have shorter := (Grammar.or (t :: behind)).rest_le
      rw [if_neg named, if_neg named, or_eq k (t :: behind), Parsed.found_bind,
        ParsedArgs.found_positional]
      refine bind_congr fun v => ?_
      rw [argumentsTail_eq _ k (Grammar.or (t :: behind)).rest, Bool.eq_false_iff.2 named]
termination_by 11 * ts.length + 10
decreasing_by
  all_goals
    simp only [List.length_cons] at *
    omega

lemma argumentsTail_eq (call : CallArgs) (k : Nat) (ts : List Token) :
    argumentsTail call k ts =
      (Grammar.argumentsTail (!call.keywords.entries.isEmpty) ts).found call k := by
  cases ts with
  | nil =>
    simp only [argumentsTail, Grammar.argumentsTail]
    exact (ParsedArgs.found_mistaken ..).symm
  | cons t behind =>
    rw [argumentsTail.eq_def, Grammar.argumentsTail.eq_def]
    dsimp only
    by_cases isComma : t.is .punctuation ","
    · rw [if_pos isComma, if_pos isComma, arguments_eq call k behind, ParsedArgs.found_widen]
    rw [if_neg isComma, if_neg isComma]
    by_cases isClose : t.is .punctuation ")"
    · rw [if_pos isClose, if_pos isClose]
      exact (ParsedArgs.found_closed ..).symm
    · rw [if_neg isClose, if_neg isClose]
      exact (ParsedArgs.found_mistaken ..).symm
termination_by 11 * ts.length + 0

lemma atom_eq (k : Nat) (ts : List Token) : atom k ts = (Grammar.atom ts).found k := by
  cases ts with
  | nil =>
    simp only [atom, Grammar.atom]
    exact (Parsed.found_mistaken ..).symm
  | cons t behind =>
    rw [atom.eq_def, Grammar.atom.eq_def]
    dsimp only
    by_cases isOpening : t.is .punctuation "("
    · rw [if_pos isOpening, if_pos isOpening, or_eq k behind, Parsed.found_bind]
      generalize Grammar.or behind = p
      obtain ⟨inner, _ | ⟨close, rest⟩, h⟩ := p
      · exact (Parsed.found_broken ..).symm
      dsimp only
      by_cases isClose : close.is .punctuation ")"
      · simp only [if_pos isClose]
        exact (Parsed.found_mk ..).symm
      · simp only [if_neg isClose]
        exact (Parsed.found_broken ..).symm
    · rw [if_neg isOpening, if_neg isOpening, tokenValue_eq]
      cases Grammar.atomExpr t with
      | mistake m =>
        dsimp only
        rw [under_mistake, Parsed.found_mistaken]
        rfl
      | _ => exact (Parsed.found_mk ..).symm
termination_by 11 * ts.length + 0

end

/-- In one pass a text is evaluated as its tree is. -/
theorem expression_significant (text : Bytes) :
    expression (Token.significant text) = (parseExpression text).eval := by
  rw [parseExpression, expression, Grammar.expression, or_eq, Parsed.found_bind]
  generalize Grammar.or (Token.significant text) = p
  obtain ⟨e, _ | ⟨t, behind⟩, h⟩ := p
  · exact bind_pure _
  · rfl

/-! ### Skipping -/

/-- What the grammar reads at a level. -/
def Level.phrase : (level : Level) → (ts : List Token) → Phrase level.Answer ts
  | .or, ts => (Grammar.or ts).phrase
  | .and, ts => (Grammar.and ts).phrase
  | .not, ts => (Grammar.not ts).phrase
  | .comparison, ts => (Grammar.comparison ts).phrase
  | .sum, ts => (Grammar.sum ts).phrase
  | .term, ts => (Grammar.term ts).phrase
  | .unary, ts => (Grammar.unary ts).phrase
  | .power, ts => (Grammar.power ts).phrase
  | .trailed, ts => (Grammar.trailed ts).phrase
  | .arguments, ts => (Grammar.arguments false ts).phrase
  | .atom, ts => (Grammar.atom ts).phrase

lemma Level.read_eq (level : Level) (k : Nat) (ts : List Token) :
    level.read k ts = (level.phrase ts).found k := by
  cases level with
  | or => exact (or_eq k ts).trans (Parsed.found_phrase _ k).symm
  | and => exact (and_eq k ts).trans (Parsed.found_phrase _ k).symm
  | not => exact (not_eq k ts).trans (Parsed.found_phrase _ k).symm
  | comparison => exact (comparison_eq k ts).trans (Parsed.found_phrase _ k).symm
  | sum => exact (sum_eq k ts).trans (Parsed.found_phrase _ k).symm
  | term => exact (term_eq k ts).trans (Parsed.found_phrase _ k).symm
  | unary => exact (unary_eq k ts).trans (Parsed.found_phrase _ k).symm
  | power => exact (power_eq k ts).trans (Parsed.found_phrase _ k).symm
  | trailed => exact (trailed_eq k ts).trans (Parsed.found_phrase _ k).symm
  | arguments => exact (arguments_eq {} k ts).trans (ParsedArgs.found_phrase _ k).symm
  | atom => exact (atom_eq k ts).trans (Parsed.found_phrase _ k).symm

/-- At every level and in front of any tokens, reading in one pass is evaluating, or passing over, what the
grammar reads there. Where it passes over, it does the same on every machine and leaves the machine as it
is: it returns at the depth at which it began, or it finds a mistake. What can be evaluated on some machine
is passed over up to the same place, and what has a mistake cannot be evaluated on any. -/
theorem skipped_as_evaluated (level : Level) (ts : List Token) :
    (∀ depth, level.read depth ts = (level.phrase ts).found depth) ∧
    ∀ k,
      ((∃ found, found.depth = k + 1 ∧ ∀ m, (level.read (k + 1) ts).run m = .ok found m) ∨
        ∃ mistake, ∀ m, (level.read (k + 1) ts).run m = .error (.failed (.malformed mistake)) m) ∧
      (∀ m m' found, (level.read 0 ts).run m = .ok found m' →
        ∃ passed, passed.rest = found.rest ∧ ∀ n, (level.read (k + 1) ts).run n = .ok passed n) ∧
      ∀ m m' stop, (level.read (k + 1) ts).run m = .error stop m' →
        ∀ n, ∃ stop' n', (level.read 0 ts).run n = .error stop' n' := by
  refine ⟨fun depth => level.read_eq depth ts, fun k => ?_⟩
  rw [level.read_eq 0 ts, level.read_eq (k + 1) ts]
  generalize level.phrase ts = p
  cases isMistake : p.mistake? with
  | none =>
    have passes := Phrase.found_of_none isMistake k
    refine ⟨.inl ⟨_, rfl, passes⟩, fun m m' found ok => ?_, fun m m' stop refused => ?_⟩
    · exact ⟨_, (Phrase.of_found_zero ok).1.symm, passes⟩
    · rw [passes] at refused
      cases refused
  | some mistake =>
    have refuses := Phrase.found_of_some isMistake k
    refine ⟨.inr ⟨mistake, refuses⟩, fun m m' found ok => ?_, fun _ _ _ _ n => ?_⟩
    · rw [(Phrase.of_found_zero ok).2] at isMistake
      cases isMistake
    · cases evaluated : (p.found 0).run n with
      | error stop' n' => exact ⟨stop', n', rfl⟩
      | ok found n' =>
        rw [(Phrase.of_found_zero evaluated).2] at isMistake
        cases isMistake

/-- The undefined name behind a true value is passed over, and so is the whole line. -/
theorem skipped_as_evaluated_short_circuit :
    let ts : List Token :=
      [⟨.keyword, bytes "True", 0⟩, ⟨.keyword, bytes "or", 5⟩, ⟨.name, bytes "missing", 8⟩]
    let m : Machine := { names := .initial, env := .empty }
    ∃ found passed, (Level.or.read 0 ts).run m = .ok found m ∧ found.value = .bool true ∧
      passed.rest = found.rest ∧ ∀ m, (Level.or.read 1 ts).run m = .ok passed m := by
  intro ts m
  let found : Found Value ts := ⟨.bool true, [], 0, Nat.zero_le _⟩
  have returns : (Level.or.read 0 ts).run m = .ok found m := by with_unfolding_all rfl
  obtain ⟨passed, samePlace, passes⟩ := ((skipped_as_evaluated .or ts).2 0).2.1 m m found returns
  exact ⟨found, passed, returns, rfl, samePlace, passes⟩

end OnePass
end CalcShell.Calc
