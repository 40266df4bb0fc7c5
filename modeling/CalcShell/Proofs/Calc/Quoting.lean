import CalcShell.Proofs.Calc.Parsing
import CalcShell.Proofs.Calc.Statements

/-! Strings as they are echoed. The quoted form of a text is a single string literal that stands for that
text, so that whatever the calculator echoes of a string can be entered again. -/
namespace CalcShell.Calc

namespace LiteralByte

/-- A byte as it is written between single quotes. -/
def quote (b : UInt8) : LiteralByte :=
  if b = Ascii.singleQuote then escaped b
  else if free : b = Ascii.backslash then escaped b
  else if b = Ascii.newline then escaped (Ascii.code 'n')
  else if b = Ascii.tab then escaped (Ascii.code 't')
  else plain b free

lemma text_quote (b : UInt8) : (quote b).text = Value.quoteByte b := by
  rw [quote, Value.quoteByte]
  split_ifs <;> simp_all [text]

lemma value_quote (b : UInt8) : (quote b).value = b := by
  rw [quote]
  split_ifs <;> simp_all [value] <;> decide

/-- Single quotes are escaped. -/
lemma quote_ne_plain (b : UInt8) (free : Ascii.singleQuote ≠ Ascii.backslash) :
    quote b ≠ plain Ascii.singleQuote free := by
  rw [quote]
  split_ifs <;> simp_all

end LiteralByte

namespace StringLiteral

/-- The literal that writes a text in single quotes. -/
def quoting (value : Bytes) : StringLiteral where
  isDouble := false
  content := value.map .quote
  closedBy b free mem := by
    rintro rfl
    obtain ⟨c, -, same⟩ := List.mem_map.1 mem
    exact LiteralByte.quote_ne_plain c free same

variable (value : Bytes)

lemma text_quoting : (quoting value).text = Value.quoted value := by
  have body : (quoting value).body = value.flatMap Value.quoteByte := by
    rw [StringLiteral.body, quoting, List.flatMap_map]
    exact congrArg value.flatMap (funext LiteralByte.text_quote)
  rw [StringLiteral.text, body, Value.quoted]
  rfl

lemma value_quoting : (quoting value).value = value := by
  rw [StringLiteral.value, quoting, List.map_map]
  conv_rhs => rw [← List.map_id value]
  exact List.map_congr_left fun b _ => LiteralByte.value_quote b

lemma significant_quoted : Token.significant (Value.quoted value) = [(quoting value).token] := by
  have word := (quoting value).isWord_token
  have lexed : Token.lex (Value.quoted value) = [(quoting value).token] := by
    rw [← text_quoting]
    exact word.lexed
  rw [Token.significant, lexed, List.filter_cons_of_pos word.marked, List.filter_nil]

/-- The quoted form of a text is an expression for the text. -/
lemma parseExpression_quoted : parseExpression (Value.quoted value) = .literal (.string value) := by
  have tree := (Tree.atom (.string (quoting value))).expression_significant
  have text : (Tree.atom (.string (quoting value))).text = Value.quoted value := text_quoting value
  rw [text] at tree
  rw [parseExpression, tree]
  exact congrArg (fun text => Expr.literal (.string text)) (value_quoting value)

lemma parseStatement_quoted :
    parseStatement (Value.quoted value) = .echo (.literal (.string value)) := by
  have expression := parseExpression_quoted value
  rw [parseExpression, significant_quoted] at expression
  rw [parseStatement, significant_quoted, ← expression]
  rfl

end StringLiteral

/-! ### The line -/

lemma trimLine_quoted (value : Bytes) : trimLine (Value.quoted value) = Value.quoted value := by
  have marked : ¬Number.isBlank Ascii.singleQuote = true := by decide
  have front (text : Bytes) : (Ascii.singleQuote :: text).dropWhile Number.isBlank =
      Ascii.singleQuote :: text := List.dropWhile_cons_of_neg marked
  rw [trimLine, Bytes.trim, Value.quoted, List.append_assoc, List.singleton_append, front,
    ← List.cons_append, List.reverse_concat, front, List.reverse_cons, List.reverse_reverse]

lemma getLast?_quoted (value : Bytes) : (Value.quoted value).getLast? = some Ascii.singleQuote :=
  List.getLast?_concat ..

lemma withoutBackslash_quoted (value : Bytes) :
    withoutBackslash (Value.quoted value) = Value.quoted value := by
  have other : some Ascii.singleQuote ≠ some Ascii.backslash := by decide
  rw [withoutBackslash, trimLine_quoted, getLast?_quoted, if_neg other]

lemma endsInBackslash_quoted (value : Bytes) : endsInBackslash (Value.quoted value) = false := by
  rw [endsInBackslash, trimLine_quoted, getLast?_quoted]
  rfl

namespace Calculator

/-- Between statements the quoted form of a text is a whole statement. -/
lemma step_quoted {c : Calculator} (idle : c.isUnfinished = false) (value : Bytes) :
    c.step (Value.quoted value) =
      .run c (reporting (Statement.echo (.literal (.string value))).run) := by
  obtain ⟨none, noBlock⟩ := isUnfinished_eq_false.1 idle
  have joined : joinLines [Value.quoted value] = Value.quoted value := withoutBackslash_quoted value
  have balanced : ¬(decide (0 < Token.bracketDepth [(StringLiteral.quoting value).token]) ||
      endsInBackslash (Value.quoted value)) = true := by
    rw [endsInBackslash_quoted, Bool.or_false]
    exact Bool.false_ne_true
  obtain ⟨names, pending, block, calls⟩ := c
  cases none
  cases noBlock
  unfold step
  dsimp only
  rw [List.nil_append, joined, StringLiteral.significant_quoted, if_neg balanced,
    StringLiteral.parseStatement_quoted]
  rfl

/-- Whatever a string holds, its echoed form reads back as that string. Entered between statements it
asks for nothing more, is echoed as it is and changes nothing. -/
theorem echo_reads_back (c : Calculator) (env : Environment) (patience : Patience) (text : Bytes) :
    let value := Value.string text
    c.evaluate env patience value.repr = (.ok value, [], c) ∧
      (c.isUnfinished = false → c.submit env patience value.repr =
        { outcome := .finished false 0, pieces := [{ text := value.repr ++ [Ascii.newline] }],
          next := c, patience }) := by
  intro value
  refine ⟨?_, fun idle => ?_⟩
  · have parsed : parseExpression value.repr = .literal value := StringLiteral.parseExpression_quoted text
    rw [evaluate, parsed]
    rfl
  · exact submit_run env patience _ (step_quoted idle text)

/-- A text with a quote, a backslash at its end and a byte that is no character. -/
theorem echo_reads_back_backslash :
    let value := Value.string (bytes "it's\n" ++ [0xFF, Ascii.backslash])
    value.repr = bytes "'it\\'s\\n" ++ [0xFF] ++ bytes "\\\\'" ∧
      ({} : Calculator).isUnfinished = false ∧
      (evaluate {} .empty {} value.repr).1 = .ok value ∧
      (submit {} .empty {} value.repr).pieces = [{ text := value.repr ++ [Ascii.newline] }] := by
  intro value
  obtain ⟨reads, echoes⟩ := echo_reads_back {} .empty {} (bytes "it's\n" ++ [0xFF, Ascii.backslash])
  refine ⟨by decide +kernel, rfl, ?_, ?_⟩
  · rw [reads]
  · rw [echoes rfl]

end Calculator

end CalcShell.Calc
