import CalcShell.Calc.Evaluator
import CalcShell.Proofs.Calc.Levels
import CalcShell.Proofs.Calc.Places

/-! Strings that are read. The lexer goes through a literal from its front to find the closing quote,
while the grammar looks at both ends of it only, so a quote that a backslash hides at the end of a literal
passes for a closing one. -/
namespace CalcShell.Calc

namespace Token

/-! ### Both ends of a literal -/

lemma getLast?_take_scanString {quote : UInt8} {text : Bytes}
    (closed : (scanString quote text).2 = true) :
    (text.take (scanString quote text).1).getLast? = some quote := by
  fun_induction scanString quote text with
  | case1 => cases closed
  | case2 rest => rfl
  | case3 => cases closed
  | case4 hidden rest n isClosed scanned other ih =>
    rw [scanned] at ih
    rw [List.take_succ_cons, List.take_succ_cons, List.getLast?_cons, List.getLast?_cons, ih closed]
    rfl
  | case5 b rest other plain n isClosed scanned ih =>
    rw [scanned] at ih
    rw [List.take_succ_cons, List.getLast?_cons, ih closed]
    rfl

/-- A text that ends in a quote without being closed by it hides the quote behind a backslash. -/
lemma exists_hidden_of_not_closed {quote : UInt8} {text : Bytes}
    (isOpen : (scanString quote text).2 = false) (last : text.getLast? = some quote) :
    ∃ inner, text = inner ++ [Ascii.backslash, quote] := by
  fun_induction scanString quote text with
  | case1 => cases last
  | case2 => cases isOpen
  | case3 other => exact absurd (Option.some.inj last) other
  | case4 hidden rest n isClosed scanned other ih =>
    rw [scanned] at ih
    cases rest with
    | nil =>
      obtain rfl : hidden = quote := Option.some.inj last
      exact ⟨[], rfl⟩
    | cons c rest =>
      obtain ⟨inner, split⟩ := ih isOpen (by rwa [List.getLast?_cons_cons, List.getLast?_cons_cons] at last)
      exact ⟨Ascii.backslash :: hidden :: inner, by rw [split]; rfl⟩
  | case5 b rest other plain n isClosed scanned ih =>
    rw [scanned] at ih
    cases rest with
    | nil => exact absurd (Option.some.inj last) other
    | cons c rest =>
      obtain ⟨inner, split⟩ := ih isOpen (by rwa [List.getLast?_cons_cons] at last)
      exact ⟨b :: inner, by rw [split]; rfl⟩

/-- A string has no closing quote but ends in a hidden one of the kind that it begins with. -/
def EndsInHiddenQuote (token : Token) : Prop :=
  token.isClosed = false ∧
    ∃ quote inner, token.text = quote :: (inner ++ [Ascii.backslash, quote])

/-- A string token by itself is read to its end again. -/
lemma exists_scanString_of_mem_lex {text : Bytes} {token : Token} (mem : token ∈ lex text)
    (isString : token.kind = .string) :
    ∃ quote body, token.text = quote :: body ∧ (scanString quote body).1 = body.length ∧
      lex token.text = [{ token with pos := 0 }] := by
  obtain ⟨quote, rest, -, -, scanned, whole⟩ := exists_scanString_of_mem_lexFrom mem isString
  have alone := lex_of_scan quote rest
  rw [scanned, ← whole, ← isString] at alone
  refine ⟨quote, rest.take (scanString quote rest).1, whole, ?_, alone⟩
  rw [scanString_take, List.length_take_of_le (scanString_le quote rest)]

end Token

/-! ### Literals by themselves -/

lemma isSome_unquote? (quote : UInt8) (body : Bytes) :
    (unquote? (quote :: body)).isSome = true ↔ body.getLast? = some quote := by
  rw [unquote?]
  split
  · rename_i same
    exact iff_of_true rfl same
  · rename_i differ
    exact iff_of_false Bool.false_ne_true differ

namespace Grammar

/-- With nothing behind it, a string is read in the same way on every level, also if it cannot be taken. -/
lemma read_string {t : Token} (isString : t.kind = .string) {k : Nat} (level : k ≤ 9) :
    read k [t] = (atomExpr t, []) := by
  induction level using Nat.decreasingInduction with
  | self =>
    change (atom [t]).view = _
    rw [atom.eq_def]
    have other : t.is .punctuation "(" = false := by simp [Token.is, isString]
    dsimp only
    rw [other, if_neg Bool.false_ne_true]
    cases atomExpr t <;> rfl
  | of_succ k low ih =>
    have plain : begins k t = false := begins_of_kind (by simp [isString]) (by simp [isString]) k
    rw [read_eq_goOn low (by rintro _ ⟨⟩; exact plain), ih, goOn_nil]

lemma expression_string {t : Token} (isString : t.kind = .string) : expression [t] = atomExpr t := by
  have read := read_string isString (Nat.zero_le 9)
  change (Grammar.or [t]).view = _ at read
  rw [expression]
  generalize Grammar.or [t] = parsed at read
  obtain ⟨expr, rest, h⟩ := parsed
  obtain ⟨rfl, rfl⟩ := Prod.mk.inj read
  rfl

end Grammar

lemma parseExpression_string {text : Bytes} {token : Token} (mem : token ∈ Token.lex text)
    (isString : token.kind = .string) : parseExpression token.text = Grammar.atomExpr token := by
  obtain ⟨-, -, -, -, alone⟩ := Token.exists_scanString_of_mem_lex mem isString
  have marked : ({ token with pos := 0 } : Token).isSignificant = true := by
    simp [Token.isSignificant, isString]
  rw [parseExpression, Token.significant, alone, List.filter_cons_of_pos marked, List.filter_nil]
  exact Grammar.expression_string isString

lemma atomExpr_string {token : Token} (isString : token.kind = .string) :
    Grammar.atomExpr token =
      match unquote? token.text with
      | some value => .literal (.string value)
      | none => .mistake .unterminatedString := by
  obtain ⟨kind, text, pos⟩ := token
  cases isString
  rfl

/-- A string literal of a line is taken for a string if its closing quote is there, or if it ends in a
hidden quote that passes for one. Any other is reported, wherever it stands and also by itself. -/
theorem literal_taken_iff {text : Bytes} {token : Token} (mem : token ∈ Token.lex text)
    (isString : token.kind = .string) :
    let unterminated := CalcError.malformed .unterminatedString
    ((unquote? token.text).isSome = true ↔ token.isClosed = true ∨ token.EndsInHiddenQuote) ∧
      (∀ value, unquote? token.text = some value →
        Grammar.atomExpr token = .literal (.string value)) ∧
      (unquote? token.text = none →
        (∀ m, (Grammar.atomExpr token).eval.run m = .error (.failed unterminated) m) ∧
          ∀ (c : Calculator) env patience,
            (c.evaluate env patience token.text).1 = .error (.failed unterminated)) ∧
      unterminated.message = bytes "SyntaxError: unterminated string literal" := by
  intro unterminated
  obtain ⟨quote, body, whole, all, -⟩ := Token.exists_scanString_of_mem_lex mem isString
  have isClosed : token.isClosed = (Token.scanString quote body).2 := by rw [Token.isClosed, whole]
  refine ⟨?_, fun value taken => ?_, fun refused => ?_, by decide +kernel⟩
  · rw [Token.EndsInHiddenQuote, isClosed, whole, isSome_unquote?]
    constructor
    · intro last
      cases closed : (Token.scanString quote body).2 with
      | true => exact .inl rfl
      | false =>
        obtain ⟨inner, split⟩ := Token.exists_hidden_of_not_closed closed last
        exact .inr ⟨rfl, quote, inner, by rw [split]⟩
    · rintro (closed | ⟨-, other, inner, same⟩)
      · have last := Token.getLast?_take_scanString closed
        rwa [all, List.take_length] at last
      · obtain ⟨rfl, rfl⟩ := List.cons.inj same
        rw [List.getLast?_append]
        rfl
  · rw [atomExpr_string isString, taken]
  · have mistake : Grammar.atomExpr token = .mistake .unterminatedString := by
      rw [atomExpr_string isString, refused]
    refine ⟨fun m => by rw [mistake]; rfl, fun c env patience => ?_⟩
    rw [Calculator.evaluate, parseExpression_string mem isString, mistake]
    rfl

/-- The literal at the end of the line has a hidden quote in it but no closing one. -/
theorem open_literal_refused :
    let token : Token := { kind := .string, text := bytes "'it\\'s", pos := 4 }
    token ∈ Token.lex (bytes "a + 'it\\'s") ∧ unquote? token.text = none ∧
      (({} : Calculator).evaluate .empty {} token.text).1 =
        .error (.failed (.malformed .unterminatedString)) ∧
      token.isClosed = false ∧ ¬token.EndsInHiddenQuote := by
  intro token
  have mem : token ∈ Token.lex (bytes "a + 'it\\'s") := by decide +kernel
  have refused : unquote? token.text = none := by decide +kernel
  obtain ⟨taken, -, reported, -⟩ := literal_taken_iff mem rfl
  have other := taken.not.1 (by rw [refused]; exact Bool.false_ne_true)
  rw [not_or, Bool.not_eq_true] at other
  exact ⟨mem, refused, (reported refused).2 {} .empty {}, other⟩

/-- The backslash hides the quote at the end, so the literal is not closed, and yet it is taken. -/
theorem hidden_quote_taken :
    let token : Token := { kind := .string, text := bytes "'a\\'", pos := 0 }
    Token.lex (bytes "'a\\'") = [token] ∧ token.isClosed = false ∧
      unquote? token.text = some (bytes "a\\") := by
  decide +kernel

end CalcShell.Calc
