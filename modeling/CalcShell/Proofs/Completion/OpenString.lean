import CalcShell.Completion.Engine
import CalcShell.Proofs.Calc.Places
import CalcShell.Proofs.Completion.Scanning

/-! The string literal at the cursor. The scan that looks for it only knows quotes and comment signs, and
finds what the lexer makes of the line: the last token, if that is a string without its closing quote. -/
namespace CalcShell.Completion

open Calc (Token)

/-! ### Over the bytes -/

/-- Bytes that begin neither a string nor a comment are passed over. -/
lemma openString?_append {front : Bytes} (plain : ∀ b ∈ front, b ≠ Ascii.code '#' ∧ ¬isQuote b = true)
    (back : Bytes) : openString? (front ++ back) = openString? back := by
  induction front with
  | nil => rfl
  | cons b front ih =>
    obtain ⟨⟨other, noQuote⟩, others⟩ := List.forall_mem_cons.1 plain
    rw [List.cons_append, openString?, if_neg other]
    exact (if_neg noQuote).trans (ih others)

lemma plain_of_notMem_marks {b : UInt8} (unmarked : b ∉ Token.marks) :
    b ≠ Ascii.code '#' ∧ ¬isQuote b = true := by
  constructor
  · rintro rfl
    exact unmarked (by decide)
  · rw [isQuote, Bool.or_eq_true, decide_eq_true_eq, decide_eq_true_eq]
    rintro (rfl | rfl) <;> exact unmarked (by decide)

lemma plain_of_isPunctuation {b : UInt8} (sign : Token.isPunctuation b = true) :
    b ≠ Ascii.code '#' ∧ ¬isQuote b = true := by
  have signs : (bytes "()[]\x7b\x7d,:.;").all (fun c => c != Ascii.code '#' && !isQuote c) = true := by rfl
  have signs := List.all_eq_true.1 signs b (List.contains_iff_mem.1 sign)
  rwa [Bool.and_eq_true, bne_iff_ne, Bool.not_eq_true', ← Bool.not_eq_true] at signs

/-- A closed string is passed over, and an open one is what is looked for. -/
lemma openString?_of_quote {b : UInt8} (quote : isQuote b = true) (rest : Bytes) :
    openString? (b :: rest) =
      if (Token.scanString b rest).2 then openString? (rest.drop (Token.scanString b rest).1)
      else if rest = [] then none else some rest := by
  have other : b ≠ Ascii.code '#' := by
    rintro rfl
    cases quote
  rw [openString?, if_neg other]
  refine (if_pos quote).trans ?_
  split
  · rename_i n scanned
    rw [scanned, if_pos rfl]
  · rename_i n scanned
    rw [scanned, if_neg Bool.false_ne_true]
    simp only [List.isEmpty_iff]

/-! ### Over the tokens -/

/-- The content of the last token, if it is a string that is not closed and has any content. -/
def openLiteral? (tokens : List Token) : Option Bytes :=
  tokens.getLast?.bind fun token =>
    if token.kind = .string ∧ token.isClosed = false ∧ token.text.tail ≠ [] then some token.text.tail else none

lemma openLiteral?_cons {token : Token} (none : openLiteral? [token] = none) (tokens : List Token) :
    openLiteral? (token :: tokens) = openLiteral? tokens := by
  cases tokens with
  | nil => exact none
  | cons next tokens => rw [openLiteral?, List.getLast?_cons_cons, openLiteral?]

lemma openLiteral?_of_kind {token : Token} (other : token.kind ≠ .string) : openLiteral? [token] = none :=
  if_neg fun found => other found.1

lemma openLiteral?_of_closed {token : Token} (closed : token.isClosed = true) : openLiteral? [token] = none :=
  if_neg fun found => Bool.false_ne_true (found.2.1.symm.trans closed)

lemma openString?_eq_openLiteral? (pos : Nat) (text : Bytes) :
    openString? text = openLiteral? (Token.lexFrom pos text) := by
  induction text using Token.token_induction generalizing pos with
  | nil =>
    rw [openString?, Token.lexFrom_nil]
    rfl
  | cons b rest ih =>
    have passed (plain : ∀ c ∈ b :: rest.take (Token.scan b rest).2, c ≠ Ascii.code '#' ∧ ¬isQuote c = true)
        (noString : (Token.scan b rest).1 ≠ .string) :
        openString? (b :: rest) = openLiteral? (Token.lexFrom pos (b :: rest)) := by
      have split : b :: rest = (b :: rest.take (Token.scan b rest).2) ++ rest.drop (Token.scan b rest).2 := by
        rw [List.cons_append, List.take_append_drop]
      rw [Token.lexFrom_cons, openLiteral?_cons (openLiteral?_of_kind noString), ← ih]
      calc openString? (b :: rest)
        _ = openString? ((b :: rest.take (Token.scan b rest).2) ++ rest.drop (Token.scan b rest).2) := by
          rw [← split]
        _ = openString? (rest.drop (Token.scan b rest).2) := openString?_append plain _
    rcases Token.mark_cases b rest with ⟨hash, scanned⟩ | ⟨quote, scanned⟩ | ⟨sign, scanned⟩ | ⟨other, unmarked⟩
    · have noString : Calc.TokenKind.comment ≠ .string := by decide
      rw [Token.lexFrom_cons, scanned, List.drop_length, Token.lexFrom_nil, openString?, if_pos hash,
        openLiteral?_of_kind noString]
    · have isClosed : Token.isClosed { kind := .string, text := b :: rest.take (Token.scanString b rest).1, pos } =
          (Token.scanString b rest).2 := congrArg Prod.snd (Token.scanString_take b rest)
      rw [scanned] at ih
      rw [Token.lexFrom_cons, scanned, openString?_of_quote quote]
      split
      · rename_i closed
        rw [openLiteral?_cons (openLiteral?_of_closed (isClosed.trans closed))]
        exact ih _
      · rename_i isOpen
        rw [Bool.not_eq_true] at isOpen
        have reached := Token.length_scanString_of_open isOpen
        rw [isOpen] at isClosed
        simp only [reached, List.take_length, List.drop_length, Token.lexFrom_nil] at isClosed ⊢
        simp [openLiteral?, isClosed]
    · refine passed ?_ (by rw [scanned]; decide)
      rw [scanned]
      exact List.forall_mem_singleton.2 (plain_of_isPunctuation sign)
    · exact passed (fun c mem => plain_of_notMem_marks (unmarked c mem)) other.2.1

/-- At the end of the line, whatever its bytes are, the cursor is in a string exactly if the last token is
a string without its closing quote, and what it is completed at is the text of that token behind its
opening quote. The scan that finds it goes over the line once and knows no more than the quote of the
literal that it is in and the place where that began. -/
theorem currentString?_eq_some_iff {line : InputLine} (atEnd : line.atEnd = true) (content : Bytes) :
    currentString? line = contentBehind? line.text (scanBytes literalStep none 0 0 line.text) ∧
      (currentString? line = some content ↔
        ∃ token, (Token.lex line.text).getLast? = some token ∧ token.kind = .string ∧
          token.isClosed = false ∧ content ≠ [] ∧ ∃ quote, token.text = quote :: content) := by
  have whole : line.text = line.before := by
    rw [InputLine.text, List.isEmpty_iff.1 atEnd, List.append_nil]
  have found : currentString? line = openString? line.text := by
    rw [currentString?, if_pos atEnd, whole]
  refine ⟨by rw [found, openString?_eq_scanBytes], ?_⟩
  rw [found, openString?_eq_openLiteral? 0, openLiteral?, Option.bind_eq_some_iff]
  refine exists_congr fun token => and_congr_right fun _ => ?_
  constructor
  · intro taken
    split at taken
    · rename_i isOpen
      obtain ⟨isString, isOpen, more⟩ := isOpen
      cases taken
      refine ⟨isString, isOpen, more, ?_⟩
      cases text : token.text with
      | nil => exact absurd (congrArg List.tail text) more
      | cons quote content => exact ⟨quote, rfl⟩
    · cases taken
  · rintro ⟨isString, isOpen, more, quote, text⟩
    rw [text, List.tail_cons]
    exact if_pos ⟨isString, isOpen, more⟩

/-- A comment sign in the literal and a hidden quote at its end, behind a string that is closed. -/
theorem currentString?_hidden_quote :
    let line : InputLine := { before := bytes "f('a', \"#b\\\"" }
    let literal : Token := { kind := .string, text := bytes "\"#b\\\"", pos := 7 }
    line.atEnd = true ∧ currentString? line = some (bytes "#b\\\"") ∧
      (Token.lex line.text).getLast? = some literal ∧ literal.isClosed = false := by
  intro line literal
  have last : (Token.lex line.text).getLast? = some literal := by decide +kernel
  have isOpen : literal.isClosed = false := by decide +kernel
  obtain ⟨-, found⟩ := @currentString?_eq_some_iff line rfl (bytes "#b\\\"")
  exact ⟨rfl, found.2 ⟨literal, last, rfl, isOpen, by decide, Ascii.doubleQuote, by decide +kernel⟩, last, isOpen⟩

end CalcShell.Completion
