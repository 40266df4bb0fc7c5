import CalcShell.Completion.Context
import CalcShell.Proofs.Calc.Spacing

/-! Scans that go over a text byte by byte and remember the quote of the literal that they are in. What is
open at the end of a text is found by such a scan: a literal is passed over up to its closing quote as the
lexer finds it, or to the end of the text. -/
namespace CalcShell.Completion

open Calc (Token)

def isQuote (b : UInt8) : Bool := b = Ascii.doubleQuote || b = Ascii.singleQuote

/-- Goes over a text from place `i` on, inside of the literal that `quote` opened or outside of literals.
A byte outside, an opening quote among them, does what `step` says, and without a result the scan is
broken off. In a literal a backslash hides the byte behind it. -/
def scanBytes {σ : Type} (step : Nat → UInt8 → σ → Option σ) (quote : Option UInt8) (i : Nat) (s : σ) :
    Bytes → Option (Option UInt8 × σ)
  | [] => some (quote, s)
  | b :: rest =>
    match quote with
    | some q =>
      if b = Ascii.backslash then scanBytes step (some q) (i + 2) s rest.tail
      else scanBytes step (if b = q then none else some q) (i + 1) s rest
    | none =>
      match step i b s with
      | none => none
      | some s => scanBytes step (if isQuote b then some b else none) (i + 1) s rest
termination_by text => text.length

section

variable {σ : Type} (step : Nat → UInt8 → σ → Option σ) (i : Nat) (s : σ)

lemma scanBytes_nil (quote : Option UInt8) : scanBytes step quote i s [] = some (quote, s) := by
  rw [scanBytes]

lemma scanBytes_inside_cons (q b : UInt8) (rest : Bytes) :
    scanBytes step (some q) i s (b :: rest) =
      if b = Ascii.backslash then scanBytes step (some q) (i + 2) s rest.tail
      else scanBytes step (if b = q then none else some q) (i + 1) s rest := by
  rw [scanBytes]

lemma scanBytes_outside_cons (b : UInt8) (rest : Bytes) :
    scanBytes step none i s (b :: rest) =
      (step i b s).bind fun s => scanBytes step (if isQuote b then some b else none) (i + 1) s rest := by
  rw [scanBytes]
  cases step i b s <;> rfl

/-- A literal is left behind its closing quote, and otherwise nothing in it counts. -/
lemma scanBytes_inside {q : UInt8} (isQuote : isQuote q = true) (text : Bytes) :
    scanBytes step (some q) i s text =
      if (Token.scanString q text).2 then
        scanBytes step none (i + (Token.scanString q text).1) s (text.drop (Token.scanString q text).1)
      else some (some q, s) := by
  have noEscape : q ≠ Ascii.backslash := by
    rintro rfl
    cases isQuote
  fun_induction Token.scanString q text generalizing i with
  | case1 => exact scanBytes_nil step i s _
  | case2 rest =>
    rw [scanBytes_inside_cons, if_neg noEscape, if_pos rfl]
    rfl
  | case3 other =>
    rw [scanBytes_inside_cons, if_pos rfl]
    exact scanBytes_nil step (i + 2) s _
  | case4 hidden rest n closed scanned other ih =>
    rw [scanned] at ih
    rw [scanBytes_inside_cons, if_pos rfl, List.tail_cons, ih, Nat.add_assoc, Nat.add_comm 2]
    rfl
  | case5 b rest other plain n closed scanned ih =>
    rw [scanned] at ih
    rw [scanBytes_inside_cons, if_neg plain, if_neg other, ih, Nat.add_assoc, Nat.add_comm 1]
    rfl

end

/-! ### The open literal -/

/-- Behind a quote a literal begins; a comment has none. -/
def literalStep (i : Nat) (b : UInt8) (start : Nat) : Option Nat :=
  if b = Ascii.code '#' then none else if isQuote b then some (i + 1) else some start

/-- What stands in a text behind the place where the literal that a scan ends in begins. -/
def contentBehind? (text : Bytes) : Option (Option UInt8 × Nat) → Option Bytes
  | some (some _, start) => if start < text.length then some (text.drop start) else none
  | _ => none

lemma literalStep_of_quote {b : UInt8} (quote : isQuote b = true) (i start : Nat) :
    literalStep i b start = some (i + 1) := by
  have other : b ≠ Ascii.code '#' := by
    rintro rfl
    cases quote
  rw [literalStep, if_neg other, if_pos quote]

lemma openString?_eq_contentBehind? (front back : Bytes) (start : Nat) :
    openString? back =
      contentBehind? (front ++ back) (scanBytes literalStep none front.length start back) := by
  fun_induction openString? back generalizing front start with
  | case1 =>
    rw [scanBytes_nil]
    rfl
  | case2 rest =>
    rw [scanBytes_outside_cons, literalStep, if_pos rfl]
    rfl
  | case3 b rest _ quote n scanned ih =>
    have behind : (front ++ b :: rest.take n).length = front.length + 1 + n := by
      have within := Token.scanString_le b rest
      rw [scanned] at within
      rw [List.length_append, List.length_cons, List.length_take_of_le within]
      omega
    have split : front ++ b :: rest.take n ++ rest.drop n = front ++ b :: rest := by
      rw [List.append_assoc, List.cons_append, List.take_append_drop]
    have quote : isQuote b = true := quote
    rw [scanBytes_outside_cons, literalStep_of_quote quote, Option.bind_some, if_pos quote,
      scanBytes_inside _ _ _ quote, scanned, if_pos rfl, ih (front ++ b :: rest.take n) (front.length + 1),
      behind, split]
  | case4 b rest _ quote n scanned none =>
    have quote : isQuote b = true := quote
    obtain rfl : rest = [] := List.isEmpty_iff.1 none
    rw [scanBytes_outside_cons, literalStep_of_quote quote, Option.bind_some, if_pos quote,
      scanBytes_nil, contentBehind?, if_neg (by simp)]
  | case5 b rest _ quote n scanned some =>
    have quote : isQuote b = true := quote
    have content : (front ++ b :: rest).drop (front.length + 1) = rest := by
      rw [List.drop_append, List.drop_of_length_le (Nat.le_succ _)]
      simp
    have more : front.length + 1 < (front ++ b :: rest).length := by
      have length := List.length_pos_iff.2 (mt List.isEmpty_iff.2 some)
      rw [List.length_append, List.length_cons]
      omega
    rw [scanBytes_outside_cons, literalStep_of_quote quote, Option.bind_some, if_pos quote,
      scanBytes_inside _ _ _ quote, scanned, if_neg Bool.false_ne_true, contentBehind?, if_pos more, content]
  | case6 b rest other plain ih =>
    have plain : ¬isQuote b = true := plain
    rw [scanBytes_outside_cons, literalStep, if_neg other, if_neg plain, Option.bind_some, if_neg plain,
      ih (front ++ [b]) start, List.append_assoc, List.length_append]
    rfl

/-- The literal that is open at the end of a text, if it has any content, is found byte by byte. -/
theorem openString?_eq_scanBytes (text : Bytes) :
    openString? text = contentBehind? text (scanBytes literalStep none 0 0 text) :=
  openString?_eq_contentBehind? [] text 0

/-! ### The open brackets -/

/-- Outside of literals brackets open and close, and commas part arguments. -/
def bracketStep (i : Nat) (b : UInt8) (stack : List OpenBracket) : Option (List OpenBracket) :=
  if (bytes "([\x7b").contains b then
    some ({ isRound := b == Ascii.code '(', pos := i, argument := i + 1 } :: stack)
  else if (bytes ")]\x7d").contains b then some stack.tail
  else if b = Ascii.code ',' then some (countComma (i + 1) stack)
  else some stack

lemma bracketStep_of_quote {b : UInt8} (quote : isQuote b = true) (i : Nat) (stack : List OpenBracket) :
    bracketStep i b stack = some stack := by
  rw [isQuote, Bool.or_eq_true, decide_eq_true_eq, decide_eq_true_eq] at quote
  rcases quote with rfl | rfl <;> rfl

/-- The brackets that are open at the end of a text are found byte by byte. -/
theorem openBrackets_eq_scanBytes (i : Nat) (stack : List OpenBracket) (text : Bytes) :
    (scanBytes bracketStep none i stack text).map Prod.snd = some (openBrackets i stack text) := by
  have outside {i : Nat} {stack next : List OpenBracket} {b : UInt8} (rest : Bytes)
      (plain : ¬isQuote b = true) (steps : bracketStep i b stack = some next) :
      scanBytes bracketStep none i stack (b :: rest) = scanBytes bracketStep none (i + 1) next rest := by
    rw [scanBytes_outside_cons, steps, Option.bind_some, if_neg plain]
  fun_induction openBrackets i stack text with
  | case1 i stack =>
    rw [scanBytes_nil]
    rfl
  | case2 i stack b rest quote n ih =>
    have quote : isQuote b = true := quote
    rw [scanBytes_outside_cons, bracketStep_of_quote quote, Option.bind_some, if_pos quote,
      scanBytes_inside _ _ _ quote]
    split
    · exact ih
    · rename_i isOpen
      have reached := Token.length_scanString_of_open (Bool.eq_false_iff.2 isOpen)
      rw [List.drop_of_length_le (Nat.le_of_eq reached.symm), openBrackets]
      rfl
  | case3 i stack b rest plain opens ih =>
    rw [outside rest plain (by rw [bracketStep, if_pos opens]), ih]
  | case4 i stack b rest plain notOpen closes ih =>
    rw [outside rest plain (by rw [bracketStep, if_neg notOpen, if_pos closes]), ih]
  | case5 i stack rest plain notOpen notClose ih =>
    rw [outside rest plain (by rw [bracketStep, if_neg notOpen, if_neg notClose, if_pos rfl]), ih]
  | case6 i stack b rest plain notOpen notClose noComma ih =>
    rw [outside rest plain (by rw [bracketStep, if_neg notOpen, if_neg notClose, if_neg noComma]), ih]

end CalcShell.Completion
