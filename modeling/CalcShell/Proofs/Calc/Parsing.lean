import CalcShell.Calc.Evaluator
import CalcShell.Proofs.Calc.Levels
import CalcShell.Proofs.Calc.Skipping
import CalcShell.Proofs.Calc.Trees

/-! The grammar reads back what trees are written as. What a level reads of a written tree is known as
soon as it is known what the next level reads of it and which token stands behind it. So the tree of a
text is the tree that was written, and its evaluation the one from left to right. -/
namespace CalcShell.Calc
namespace Grammar

variable {t : Token} {behind : List Token}

/-! ### What stands behind an expression -/

/-- Nothing at the front goes on with a level or with a tighter one. -/
def Stops (k : Nat) (ts : List Token) : Prop :=
  ∀ t ∈ ts.head?, ∀ j, k ≤ j → continues j t = false

lemma Stops.mono {k m : Nat} {ts : List Token} (stops : Stops k ts) (le : k ≤ m) : Stops m ts :=
  fun t mem j above => stops t mem j (le.trans above)

lemma Stops.goOn_eq {k : Nat} {ts : List Token} (stops : Stops k ts) (left : Expr) :
    goOn k left ts = (left, ts) :=
  goOn_of_stops (fun t mem => stops t mem k le_rfl) left

lemma stops_nil (k : Nat) : Stops k [] := nofun

lemma stops_cons {k : Nat} {word : Token} (is : t.unplaced = word)
    (none : ∀ j < 9, k ≤ j → continues j word = false) : Stops k (t :: behind) := by
  rintro _ ⟨⟩ j above
  rw [← continues_unplaced, is]
  match j, above with
  | n + 9, _ => rfl
  | 0, above | 1, above | 2, above | 3, above | 4, above | 5, above | 6, above | 7, above
  | 8, above => exact none _ (by decide) above

/-- The loosest level whose tokens may not stand behind an expression of a level. Behind most of
them another operator of the same level goes on, but not behind a comparison or a power. -/
def bound (k : Nat) : Nat := if k = 3 ∨ k = 7 then k else k + 1

lemma le_bound (k : Nat) : k ≤ bound k := by
  rw [bound]
  split <;> omega

lemma bound_le (k : Nat) : bound k ≤ k + 1 := by
  rw [bound]
  split <;> omega

/-! ### The front of an expression -/

/-- The front of an expression of a level: as an operand it is not taken for a looser operator, nor
among arguments for their end or for an argument with a name. -/
structure Front (k : Nat) (ts : List Token) : Prop where
  some : ts ≠ []
  plain : ∀ t ∈ ts.head?, ∀ j < k, begins j t = false
  value : ∀ t ∈ ts.head?, t.is .punctuation ")" = false
  unbound : ∀ rest : List Token, (∀ t ∈ rest.head?, t.is .operator "=" = false) →
    isBinding (ts ++ rest) = false

namespace Front

variable {k l : Nat} {ts : List Token}

lemma mono (front : Front l ts) (le : k ≤ l) : Front k ts :=
  { front with plain := fun t mem j below => front.plain t mem j (below.trans_le le) }

lemma head?_of_append {more : List Token} (some : ts ≠ []) (mem : t ∈ (ts ++ more).head?) :
    t ∈ ts.head? := by
  obtain ⟨first, others, rfl⟩ := List.exists_cons_of_ne_nil some
  exact mem

/-- What stands behind the front of an expression does not matter, unless it is an equals sign. -/
lemma append (front : Front k ts) (noSign : t.is .operator "=" = false) (more : List Token) :
    Front k (ts ++ t :: more) where
  some := List.append_ne_nil_of_left_ne_nil front.some _
  plain first mem := front.plain first (head?_of_append front.some mem)
  value first mem := front.value first (head?_of_append front.some mem)
  unbound rest _ := by
    rw [List.append_assoc]
    refine front.unbound _ ?_
    rintro _ ⟨⟩
    exact noSign

lemma of_cons {more : List Token} (plain : ∀ j < k, begins j t = false)
    (value : t.is .punctuation ")" = false)
    (unbound : ∀ rest : List Token, (∀ t ∈ rest.head?, t.is .operator "=" = false) →
      isBinding (t :: (more ++ rest)) = false) : Front k (t :: more) where
  some := List.cons_ne_nil _ _
  plain := by
    rintro _ ⟨⟩
    exact plain
  value := by
    rintro _ ⟨⟩
    exact value
  unbound := unbound

/-- A token in front that is no name. -/
lemma of_token (plain : ∀ j < k, begins j t = false) (value : t.is .punctuation ")" = false)
    (noName : t.kind ≠ .name) (more : List Token) : Front k (t :: more) := by
  refine of_cons plain value fun rest _ => ?_
  cases more ++ rest with
  | nil => rfl
  | cons next others => simp [isBinding, noName]

/-- An expression of one token. -/
lemma single (plain : ∀ j < k, begins j t = false) (value : t.is .punctuation ")" = false) :
    Front k [t] := by
  refine of_cons plain value fun rest noSign => ?_
  cases rest with
  | nil => rfl
  | cons next others => simp [isBinding, noSign next rfl]

lemma of_value (isValue : t.kind = .number ∨ t.kind = .string ∨ t.kind = .name) : Front k [t] := by
  refine single (fun j _ => begins_of_kind ?_ ?_ j) ?_ <;>
    rcases isValue with kind | kind | kind <;> simp [kind, Token.is]

lemma opening (k : Nat) (more : List Token) : Front k (.punctuation "(" :: more) :=
  of_token (fun j _ => begins_of_kind (by decide) (by decide) j) (by decide) (by decide) more

lemma parenthesized (front : Front l ts) (k : Nat) : Front k (parenthesized (l < k) ts) := by
  rw [Calc.parenthesized]
  split
  case isTrue => exact opening k _
  case isFalse above => exact front.mono (by simpa using above)

end Front

/-! ### Reading written expressions -/

/-- The grammar reads an expression at a level, wherever its tokens stand in their line, and then
goes on with what stands behind them. An operator that groups to the left may stand there, and then
the expression is only the first operand of what is read. -/
def Reads (k : Nat) (ts : List Token) (e : Expr) : Prop :=
  ∀ front behind, front.map Token.unplaced = ts → Stops (bound k) behind →
    read k (front ++ behind) = goOn k e behind

namespace Reads

variable {k l : Nat} {ts : List Token} {e : Expr}

lemma read_eq (reads : Reads k ts e) {front behind : List Token}
    (is : front.map Token.unplaced = ts) (stops : Stops k behind) :
    read k (front ++ behind) = (e, behind) := by
  rw [reads front behind is (stops.mono (le_bound k)), stops.goOn_eq]

/-- A level goes on with what the next one reads. -/
lemma read_looser (reads : Reads (k + 1) ts e) (fits : Front (k + 1) ts) (low : k < 9)
    {front behind : List Token} (is : front.map Token.unplaced = ts) (stops : Stops (k + 1) behind) :
    read k (front ++ behind) = goOn k e behind := by
  have plain : ∀ t ∈ (front ++ behind).head?, begins k t = false := by
    intro t mem
    cases front with
    | nil => exact absurd is.symm fits.some
    | cons first others =>
      cases mem
      rw [← begins_unplaced]
      exact fits.plain _ (by rw [← is]; rfl) k k.lt_succ_self
  rw [read_eq_goOn low plain, reads.read_eq is stops]

/-- Looser levels read the same. -/
lemma loosen (reads : Reads l ts e) (fits : Front l ts) (high : l ≤ 9) (le : k ≤ l) :
    Reads k ts e := by
  -- Down from the level of the expression: each level reads it as the only operand that it has.
  induction l, le using Nat.le_induction with
  | base => exact reads
  | succ l le ih =>
    have next : Reads l ts e := fun _ _ is stops =>
      reads.read_looser fits (by omega) is (stops.mono (bound_le l))
    exact ih next (fits.mono l.le_succ) (by omega)

/-- Between parentheses there may be an expression of any level. -/
lemma enclosed (reads : Reads 0 ts e) :
    Reads 9 (.punctuation "(" :: ts ++ [.punctuation ")"]) e := by
  intro front behind is _
  obtain ⟨inner, last, rfl, isInner, isLast⟩ := List.map_eq_append_iff.1 is
  obtain ⟨opening, middle, rfl, isOpening, isMiddle⟩ := List.map_eq_cons_iff.1 isInner
  obtain ⟨closing, rfl, isClosing⟩ := List.map_eq_singleton_iff.1 isLast
  have stops : Stops 0 (closing :: behind) := stops_cons isClosing (by decide)
  have inside := reads.read_eq isMiddle stops
  rw [List.append_assoc, List.cons_append]
  exact read_parenthesized (is_of_unplaced isOpening) inside (is_of_unplaced isClosing)

/-- An expression is read in its place, with parentheses if the place asks for them. -/
lemma parenthesized (reads : Reads l ts e) (fits : Front l ts) (high : l ≤ 9) {k : Nat}
    (low : k ≤ 9) : Reads k (parenthesized (l < k) ts) e := by
  rw [Calc.parenthesized]
  split
  case isTrue =>
    have whole : Reads 0 ts e := reads.loosen fits high l.zero_le
    exact whole.enclosed.loosen (Front.opening 9 _) le_rfl low
  case isFalse above => exact reads.loosen fits high (by simpa using above)

variable {left right : List Token} {a b : Expr} {word : Token} {f : Expr → Expr → Expr}

/-- Operators that group to the left. -/
lemma infixLeft (first : Reads k left a) (second : Reads (k + 1) right b) (bounded : bound k = k + 1)
    (none : ∀ j < 9, k + 1 ≤ j → continues j word = false)
    (step : ∀ t : Token, t.unplaced = word → ∀ behind,
      goOn k a (t :: behind) = goOn k (f a (read (k + 1) behind).1) (read (k + 1) behind).2) :
    Reads k (left ++ word :: right) (f a b) := by
  intro front behind is stops
  rw [bounded] at stops
  obtain ⟨l, last, rfl, isLeft, isLast⟩ := List.map_eq_append_iff.1 is
  obtain ⟨t, r, rfl, isWord, isRight⟩ := List.map_eq_cons_iff.1 isLast
  have stopsFirst : Stops (bound k) (t :: (r ++ behind)) := by
    rw [bounded]
    exact stops_cons isWord none
  rw [List.append_assoc, List.cons_append, first l _ isLeft stopsFirst, step t isWord,
    second.read_eq isRight stops]

/-- Operators of which there is one at most. -/
lemma infixOnce {m : Nat} (first : Reads (k + 1) left a) (fits : Front (k + 1) left) (low : k < 9)
    (second : Reads m right b) (bounded : bound k = k) (stopsBoth : ∀ ts, Stops k ts → Stops m ts)
    (none : ∀ j < 9, k + 1 ≤ j → continues j word = false)
    (step : ∀ t : Token, t.unplaced = word → ∀ behind,
      goOn k a (t :: behind) = (f a (read m behind).1, (read m behind).2)) :
    Reads k (left ++ word :: right) (f a b) := by
  intro front behind is stops
  rw [bounded] at stops
  obtain ⟨l, last, rfl, isLeft, isLast⟩ := List.map_eq_append_iff.1 is
  obtain ⟨t, r, rfl, isWord, isRight⟩ := List.map_eq_cons_iff.1 isLast
  rw [List.append_assoc, List.cons_append, first.read_looser fits low isLeft (stops_cons isWord none),
    step t isWord, second.read_eq isRight (stopsBoth behind stops), stops.goOn_eq]

/-- Operators in front of their operand. -/
lemma infront {f : Expr → Expr} (operand : Reads k ts e)
    (last : ∀ left ts, goOn k left ts = (left, ts))
    (step : ∀ t : Token, t.unplaced = word → ∀ behind,
      read k (t :: behind) = (f (read k behind).1, (read k behind).2)) :
    Reads k (word :: ts) (f e) := by
  intro front behind is stops
  obtain ⟨t, rest, rfl, isWord, isRest⟩ := List.map_eq_cons_iff.1 is
  rw [List.cons_append, step t isWord, operand rest behind isRest stops, last, last]

end Reads

/-! ### Reading arguments -/

/-- Reads arguments up to the closing parenthesis: the first one, or what follows an argument. -/
def readArgs (isFirst named : Bool) (ts : List Token) : Args × List Token :=
  if isFirst then (arguments named ts).view else (argumentsTail named ts).view

/-- The grammar reads arguments and their closing parenthesis, wherever the tokens stand. -/
def ReadsArgs (isFirst named : Bool) (ts : List Token) (args : Args) : Prop :=
  ∀ front behind, front.map Token.unplaced = ts →
    readArgs isFirst named (front ++ behind) = (args, behind)

/-- A comma or the closing parenthesis is at the front, as behind every argument. -/
def Delimits (ts : List Token) : Prop :=
  ∃ word more, ts = word :: more ∧ (word = .punctuation "," ∨ word = .punctuation ")")

namespace Delimits

variable {ts front : List Token}

lemma stops (delimits : Delimits ts) (is : front.map Token.unplaced = ts) :
    Stops 0 (front ++ behind) := by
  obtain ⟨word, more, rfl, isWord⟩ := delimits
  obtain ⟨t, rest, rfl, same, -⟩ := List.map_eq_cons_iff.1 is
  rcases isWord with rfl | rfl <;> exact stops_cons same (by decide)

lemma noSign (delimits : Delimits ts) (more : List Token) :
    ∀ t ∈ (ts ++ more).head?, t.is .operator "=" = false := by
  obtain ⟨word, others, rfl, isWord⟩ := delimits
  rintro _ ⟨⟩
  rcases isWord with rfl | rfl <;> decide

end Delimits

namespace ReadsArgs

variable {ts rest : List Token} {e : Expr} {args : Args}

lemma closing (isFirst named : Bool) : ReadsArgs isFirst named [.punctuation ")"] .closed := by
  intro front behind is
  obtain ⟨t, rfl, isWord⟩ := List.map_eq_singleton_iff.1 is
  cases isFirst
  · exact argumentsTail_close (is_of_unplaced isWord)
  · exact arguments_close (is_of_unplaced isWord)

lemma behindComma (reads : ReadsArgs true named ts args) (isFirst : Bool) :
    ReadsArgs isFirst named (comma isFirst ++ ts) args := by
  cases isFirst with
  | true => exact reads
  | false =>
    intro front behind is
    obtain ⟨t, rest, rfl, isWord, isRest⟩ := List.map_eq_cons_iff.1 is
    exact (argumentsTail_comma (is_of_unplaced isWord)).trans (reads rest behind isRest)

lemma positional (value : Reads 0 ts e) (fits : Front 0 ts) (others : ReadsArgs false false rest args)
    (delimits : Delimits rest) : ReadsArgs true false (ts ++ rest) (.positional e args) := by
  intro front behind is
  obtain ⟨front, last, rfl, isFront, isLast⟩ := List.map_eq_append_iff.1 is
  have plain : isBinding (front ++ (last ++ behind)) = false := by
    rw [← isBinding_unplaced, List.map_append, List.map_append, isFront, isLast]
    exact fits.unbound _ (delimits.noSign _)
  have some : front ≠ [] := fun none => fits.some (by rw [← isFront, none]; rfl)
  obtain ⟨t, more, rfl⟩ := List.exists_cons_of_ne_nil some
  have noClose : t.is .punctuation ")" = false :=
    fits.value t.unplaced (by rw [← isFront]; rfl)
  have stops : Stops 0 (last ++ behind) := delimits.stops isLast
  have first := value.read_eq isFront stops
  rw [List.append_assoc]
  rw [List.cons_append] at plain first ⊢
  change (arguments false (t :: (more ++ (last ++ behind)))).view = _
  rw [arguments_positional noClose plain, first]
  exact congrArg (fun read => (Args.positional e read.1, read.2)) (others last behind isLast)

lemma keyword {name : Bytes} (value : Reads 0 ts e) (others : ReadsArgs false true rest args)
    (delimits : Delimits rest) (named : Bool) :
    ReadsArgs true named ({ kind := .name, text := name, pos := 0 } :: .operator "=" :: (ts ++ rest))
      (.keyword name e args) := by
  intro front behind is
  obtain ⟨t, more, rfl, isName, isMore⟩ := List.map_eq_cons_iff.1 is
  obtain ⟨sign, both, rfl, isSign, isBoth⟩ := List.map_eq_cons_iff.1 isMore
  obtain ⟨front, last, rfl, isFront, isLast⟩ := List.map_eq_append_iff.1 isBoth
  have stops : Stops 0 (last ++ behind) := delimits.stops isLast
  have first := value.read_eq isFront stops
  have kind : t.kind = .name := congrArg Token.kind isName
  have text : t.text = name := congrArg Token.text isName
  change (arguments named (t :: sign :: (front ++ last ++ behind))).view = _
  rw [arguments_keyword kind (is_of_unplaced isSign), List.append_assoc, first, text]
  exact congrArg (fun read => (Args.keyword name e read.1, read.2)) (others last behind isLast)

end ReadsArgs
end Grammar

open Grammar

/-! ### The front of a written tree -/

lemma Atom.front (a : Atom) : Front 9 [a.token] := by
  cases a with
  | number n => exact .of_value (.inl rfl)
  | string l => exact .of_value (.inr (.inl rfl))
  | name x => exact .of_value (.inr (.inr rfl))
  | none => exact .single (by decide) (by decide)
  | bool b => cases b <;> exact .single (by decide) (by decide)

namespace BinaryOp

lemma level_le (op : BinaryOp) : op.level ≤ 7 := by cases op <;> decide

lemma operandLevels_le (op : BinaryOp) : op.operandLevels.1 ≤ 8 ∧ op.operandLevels.2 ≤ 8 := by
  cases op <;> decide

lemma le_operandLevels (op : BinaryOp) : op.level ≤ op.operandLevels.1 := by cases op <;> decide

end BinaryOp

lemma Tree.level_le (t : Tree) : t.level ≤ 9 := by
  cases t with
  | binary op left right => exact op.level_le.trans (by decide)
  | _ => simp [Tree.level]

/-- An expression begins as its level asks for. -/
theorem Tree.front (t : Tree) : Front t.level t.tokens := by
  cases t with
  | atom a => exact a.front
  | member owner name => exact (owner.front.parenthesized 8).append (by decide) _
  | call callee args => exact (callee.front.parenthesized 8).append (by decide) _
  | sign negative operand =>
    have plain : ∀ j < 6, begins j (.operator (if negative then "-" else "+")) = false := by
      cases negative <;> decide
    exact .of_token plain rfl nofun _
  | binary op left right =>
    refine ((left.front.parenthesized op.operandLevels.1).mono op.le_operandLevels).append ?_ _
    cases op <;> decide
  | compare op left right =>
    have fits : Front 3 (parenthesized (left.level < 4) left.tokens) :=
      (left.front.parenthesized 4).mono (by decide)
    refine fits.append ?_ _
    cases op <;> decide
  | not operand =>
    have plain : ∀ j < 2, begins j (.keyword "not") = false := by decide
    exact .of_token plain (by decide) (by decide) _
  | and left right => exact (left.front.parenthesized 1).append (by decide) _
  | or left right => exact (left.front.mono left.level.zero_le).append (by decide) _

/-! ### Atoms, operators and trailers -/

lemma reads_atom (a : Atom) : Reads 9 [a.token] a.expr := by
  intro front behind is _
  obtain ⟨t, rfl, same⟩ := List.map_eq_singleton_iff.1 is
  have atomExpr_eq : atomExpr t = a.expr := by
    change atomExpr t.unplaced = _
    rw [same]
    cases a with
    | number n => simp [atomExpr, Atom.token, Numeral.token, n.read?_text, Atom.expr]
    | string l => simp [atomExpr, Atom.token, StringLiteral.token, l.unquote?_text, Atom.expr]
    | name x => rfl
    | none => rfl
    | bool b => cases b <;> rfl
  refine read_atom ?_ atomExpr_eq ?_
  · change t.unplaced.is .punctuation "(" = false
    rw [same]
    cases a with
    | bool b => cases b <;> rfl
    | _ => rfl
  · intro m
    cases a <;> simp [Atom.expr]

variable {left right ts : List Token} {a b e : Expr}

lemma reads_or (first : Reads 0 left a) (second : Reads 1 right b) :
    Reads 0 (left ++ .keyword "or" :: right) (.or a b) :=
  first.infixLeft second rfl (by decide) fun _ is _ => goOn_or (is_of_unplaced is)

lemma reads_and (first : Reads 1 left a) (second : Reads 2 right b) :
    Reads 1 (left ++ .keyword "and" :: right) (.and a b) :=
  first.infixLeft second rfl (by decide) fun _ is _ => goOn_and (is_of_unplaced is)

lemma reads_not (operand : Reads 2 ts e) : Reads 2 (.keyword "not" :: ts) (.not e) :=
  operand.infront (fun _ _ => rfl) fun _ is _ => read_not (is_of_unplaced is)

lemma reads_compare (op : CompareOp) (first : Reads 4 left a) (fits : Front 4 left)
    (second : Reads 4 right b) : Reads 3 (left ++ .operator op.symbol :: right) (.compare op a b) := by
  have none : ∀ j < 9, 4 ≤ j → continues j (.operator op.symbol) = false := by cases op <;> decide
  have found : compareOp? (.operator op.symbol) = some op := by cases op <;> decide
  refine first.infixOnce fits (by decide) second rfl (fun _ stops => stops.mono (by decide)) none ?_
  exact fun _ is _ => goOn_compare ((congrArg compareOp? is).trans found)

/-- No level between a sign and a power goes on, so an exponent ends where the power ends. -/
lemma stops_sign {ts : List Token} (stops : Stops 7 ts) : Stops 6 ts := by
  intro t mem j above
  rcases above.eq_or_lt with rfl | above
  · rfl
  · exact stops t mem j above

lemma reads_binary (op : BinaryOp) (first : Reads op.operandLevels.1 left a)
    (fits : Front op.operandLevels.1 left) (second : Reads op.operandLevels.2 right b) :
    Reads op.level (left ++ .operator op.symbol :: right) (.binary op a b) := by
  have found (ops : List BinaryOp) {t : Token} (is : t.unplaced = .operator op.symbol) :
      binaryOp? ops t = binaryOp? ops (.operator op.symbol) :=
    (congrArg (binaryOp? ops) is :)
  cases op with
  | add | sub => exact first.infixLeft second rfl (by decide) fun _ is _ => goOn_sum (found _ is)
  | mul | div | floorDiv | mod =>
    exact first.infixLeft second rfl (by decide) fun _ is _ => goOn_term (found _ is)
  | pow =>
    refine first.infixOnce fits (by decide) second rfl (fun _ => stops_sign) (by decide) ?_
    exact fun _ is _ => goOn_power (found _ is)

lemma reads_sign (negative : Bool) (operand : Reads 6 ts e) :
    Reads 6 (.operator (if negative then "-" else "+") :: ts) (.sign negative e) := by
  have found : signOf? (.operator (if negative then "-" else "+")) = some negative := by
    cases negative <;> decide
  exact operand.infront (fun _ _ => rfl) fun _ is _ => read_sign ((congrArg signOf? is).trans found)

lemma reads_member (owner : Reads 8 ts e) (name : Identifier) :
    Reads 8 (ts ++ [.punctuation ".", name.token]) (.attribute e name.text) := by
  intro front behind is stops
  obtain ⟨front, last, rfl, isFront, isLast⟩ := List.map_eq_append_iff.1 is
  obtain ⟨dot, rest, rfl, isDot, isRest⟩ := List.map_eq_cons_iff.1 isLast
  obtain ⟨t, rfl, isName⟩ := List.map_eq_singleton_iff.1 isRest
  have kind : t.kind = .name := congrArg Token.kind isName
  have text : t.text = name.text := congrArg Token.text isName
  rw [List.append_assoc, List.cons_append, List.singleton_append,
    owner front _ isFront (stops_cons isDot (by decide)), goOn_member (is_of_unplaced isDot) kind, text]

lemma reads_call {args : Args} (callee : Reads 8 ts e) (others : ReadsArgs true false right args) :
    Reads 8 (ts ++ .punctuation "(" :: right) (.call e args) := by
  intro front behind is stops
  obtain ⟨front, last, rfl, isFront, isLast⟩ := List.map_eq_append_iff.1 is
  obtain ⟨t, rest, rfl, isOpening, isRest⟩ := List.map_eq_cons_iff.1 isLast
  have inside : (arguments false (rest ++ behind)).view = (args, behind) := others rest behind isRest
  rw [List.append_assoc, List.cons_append, callee front _ isFront (stops_cons isOpening (by decide)),
    goOn_call (is_of_unplaced isOpening), inside]

/-! ### Reading trees back -/

lemma Keywords.delimits (ks : Keywords) : Delimits (ks.tokens false) := by
  cases ks with
  | nil => exact ⟨_, _, rfl, .inr rfl⟩
  | cons name value rest => exact ⟨_, _, rfl, .inl rfl⟩

lemma Positionals.delimits (ps : Positionals) : Delimits (ps.tokens false) := by
  cases ps with
  | named rest => exact rest.delimits
  | cons value rest => exact ⟨_, _, rfl, .inl rfl⟩

namespace Grammar.Reads

variable {t : Tree}

lemma place (reads : Reads t.level t.tokens t.expr) {k : Nat} (low : k ≤ 9) :
    Reads k (Calc.parenthesized (t.level < k) t.tokens) t.expr :=
  reads.parenthesized t.front t.level_le low

lemma whole (reads : Reads t.level t.tokens t.expr) : Reads 0 t.tokens t.expr :=
  reads.loosen t.front t.level_le t.level.zero_le

end Grammar.Reads

mutual

/-- The grammar reads the written tree back. -/
theorem Tree.reads (t : Tree) : Reads t.level t.tokens t.expr := by
  -- An operand is read in its place, within its parentheses if it has any; so its level is the only
  -- thing about it that the operator around it depends on.
  cases t with
  | atom a => exact reads_atom a
  | member owner name => exact reads_member (owner.reads.place (by decide)) name
  | call callee args => exact reads_call (callee.reads.place (by decide)) (args.reads true)
  | sign negative operand => exact reads_sign negative (operand.reads.place (by decide))
  | binary op left right =>
    have levels := op.operandLevels_le
    exact reads_binary op (left.reads.place (by omega)) (left.front.parenthesized _)
      (right.reads.place (by omega))
  | compare op left right =>
    exact reads_compare op (left.reads.place (by decide)) (left.front.parenthesized 4)
      (right.reads.place (by decide))
  | not operand => exact reads_not (operand.reads.place (by decide))
  | and left right => exact reads_and (left.reads.place (by decide)) (right.reads.place (by decide))
  | or left right => exact reads_or left.reads.whole (right.reads.place (by decide))

theorem Positionals.reads (ps : Positionals) (isFirst : Bool) :
    ReadsArgs isFirst false (ps.tokens isFirst) ps.args := by
  cases ps with
  | named rest => exact rest.reads isFirst false
  | cons value rest =>
    have fits : Front 0 value.tokens := value.front.mono value.level.zero_le
    refine .behindComma ?_ isFirst
    exact .positional value.reads.whole fits (rest.reads false) rest.delimits

theorem Keywords.reads (ks : Keywords) (isFirst named : Bool) :
    ReadsArgs isFirst named (ks.tokens isFirst) ks.args := by
  cases ks with
  | nil => exact .closing isFirst named
  | cons name value rest =>
    refine .behindComma ?_ isFirst
    exact .keyword value.reads.whole (rest.reads false true) rest.delimits named

end

/-- A written tree is read as the tree that it was. -/
theorem Tree.expression_significant (t : Tree) :
    expression (Token.significant t.text) = t.expr := by
  have content : (Token.significant t.text).map Token.unplaced = t.tokens :=
    Token.content_spell t.isWord_tokens
  have read := t.reads.whole.read_eq content (stops_nil 0)
  rw [List.append_nil] at read
  change (Grammar.or _).view = _ at read
  rw [expression]
  generalize Grammar.or _ = parsed at read
  obtain ⟨expr, rest, h⟩ := parsed
  obtain ⟨rfl, rfl⟩ := Prod.mk.inj read
  rfl

/-- Evaluating the text of a tree is evaluating the tree from left to right: with the same value, error
or exit, the same output and the same names afterwards. So is evaluating the text in one pass, on any machine. -/
theorem Calculator.evaluate_text (t : Tree) (c : Calculator) (env : Environment)
    (patience : Patience) :
    OnePass.expression (Token.significant t.text) = t.eval ∧
    c.evaluate env patience t.text =
      match t.eval.run (c.machine env patience) with
      | .ok value m => (.ok value, m.written.reverse, c.after m)
      | .error stop m => (.error stop, m.written.reverse, c.after m) := by
  have same : (parseExpression t.text).eval = t.eval := by
    rw [parseExpression, t.expression_significant, t.eval_expr]
  refine ⟨(OnePass.expression_significant t.text).trans same, ?_⟩
  rw [← same]
  rfl

end CalcShell.Calc
