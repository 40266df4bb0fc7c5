import CalcShell.Calc.Grammar
import CalcShell.Proofs.Calc.Spacing
import Mathlib.Tactic.IntervalCases

/-! The tokens that stand for values and names, spelled out: numerals, string literals and identifiers.
Each of them is one token, and the grammar reads its value. -/
namespace CalcShell.Calc

namespace Token

/-! ### Words -/

/-- A token that its text alone spells. -/
structure IsWord (t : Token) : Prop where
  lexed : lex t.text = [t]
  marked : t.isSignificant
  closed : t.kind = .string → t.isClosed

instance (t : Token) : Decidable t.IsWord :=
  decidable_of_iff (lex t.text = [t] ∧ t.isSignificant ∧ (t.kind = .string → t.isClosed))
    ⟨fun ⟨lexed, marked, closed⟩ => ⟨lexed, marked, closed⟩,
      fun word => ⟨word.lexed, word.marked, word.closed⟩⟩

lemma isWord_of_scan {b : UInt8} {rest : Bytes} {kind : TokenKind}
    (scanned : scan b rest = (kind, rest.length))
    (marked : kind ≠ .whitespace ∧ kind ≠ .comment)
    (closed : kind = .string → (scanString b rest).2 = true) :
    IsWord { kind, text := b :: rest, pos := 0 } where
  lexed := by
    rw [lex, lexFrom, scanned]
    dsimp only
    rw [List.take_length, List.drop_length, lexFrom]
  marked := by simp [isSignificant, marked]
  closed := closed

lemma IsWord.pos {t : Token} (word : t.IsWord) : t.pos = 0 := by
  have lexed := word.lexed
  cases text : t.text with
  | nil => simp [text] at lexed
  | cons b rest =>
    rw [text, lex, lexFrom] at lexed
    exact (congrArg Token.pos (List.cons.inj lexed).1).symm

lemma IsWord.content_eq {t : Token} (word : t.IsWord) : content t.text = [t] := by
  have placed : t.unplaced = t := by rw [unplaced, ← word.pos]
  rw [content, significant, word.lexed, List.filter_cons_of_pos word.marked, List.filter_nil,
    List.map_singleton, placed]

lemma IsWord.hasComment_eq {t : Token} (word : t.IsWord) : hasComment t.text = false := by
  have marked := word.marked
  simp only [isSignificant, Bool.and_eq_true, bne_iff_ne] at marked
  simp [hasComment, word.lexed, marked.2]

lemma IsWord.closesStrings {t : Token} (word : t.IsWord) : ClosesStrings t.text := by
  intro token mem
  rw [word.lexed, List.mem_singleton] at mem
  rw [mem]
  exact word.closed

/-- Tokens with a space between any two of them. -/
def spell : List Token → Bytes
  | [] => []
  | [t] => t.text
  | t :: next :: ts => t.text ++ Ascii.space :: spell (next :: ts)

/-- Words with spaces between them are read as they are. -/
theorem content_spell {ts : List Token} (words : ∀ t ∈ ts, t.IsWord) : content (spell ts) = ts := by
  induction ts using spell.induct with
  | case1 => exact content_nil
  | case2 t => exact (words t (List.mem_singleton_self t)).content_eq
  | case3 t next ts ih =>
    obtain ⟨word, others⟩ := List.forall_mem_cons.1 words
    rw [spell, content_append_space word.closesStrings, word.hasComment_eq, word.content_eq, ih others]
    rfl

/-! ### What a first byte tells -/

/-- The bytes that begin white space, a comment or a string. -/
def openers : Bytes := [Ascii.space, Ascii.tab, Ascii.code '#', Ascii.doubleQuote, Ascii.singleQuote]

lemma notMem_of_apply {p : UInt8 → Bool} {b : UInt8} {others : Bytes} (holds : p b = true)
    (fails : others.any p = false) : b ∉ others :=
  fun mem => List.any_eq_false.1 fails b mem holds

def digits : Bytes := bytes "0123456789"

lemma mem_digits {b : UInt8} (digit : Ascii.isDigit b) : b ∈ digits := by
  rw [Ascii.isDigit, Bool.and_eq_true, decide_eq_true_eq, decide_eq_true_eq, UInt8.le_iff_toNat_le,
    UInt8.le_iff_toNat_le] at digit
  obtain ⟨low, high⟩ := digit
  rw [← UInt8.ofNat_toNat (x := b)]
  generalize b.toNat = n at low high
  change 48 ≤ n at low
  change n ≤ 57 at high
  interval_cases n <;> decide

lemma scan_of_notMem_openers {b : UInt8} (plain : b ∉ openers) (rest : Bytes) : scan b rest =
    if startsNumber b rest then
      (.number, (rest.takeWhile isMantissa).length +
        exponentLength (rest.drop (rest.takeWhile isMantissa).length))
    else if startsName b then
      (if isKeyword (b :: rest.takeWhile continuesName) then .keyword else .name,
        (rest.takeWhile continuesName).length)
    else if isPunctuation b then (.punctuation, 0)
    else if doubleOperators.contains (b :: rest.take 1) then (.operator, 1)
    else (if isOperatorByte b then .operator else .error, 0) := by
  simp only [openers, List.mem_cons, List.not_mem_nil, or_false, not_or] at plain
  obtain ⟨space, tab, hash, double, single⟩ := plain
  simp [scan, isBlank, space, tab, hash, double, single]

end Token

/-! ### Identifiers -/

/-- A name that is no keyword. -/
structure Identifier where
  head : UInt8
  tail : Bytes
  starts : Token.startsName head
  goesOn : tail.all Token.continuesName
  free : Token.isKeyword (head :: tail) = false

namespace Identifier

def text (name : Identifier) : Bytes := name.head :: name.tail

def token (name : Identifier) : Token := { kind := .name, text := name.text, pos := 0 }

lemma isWord_token (name : Identifier) : name.token.IsWord := by
  have all : name.tail.takeWhile Token.continuesName = name.tail :=
    List.takeWhile_eq_self_iff.2 (List.all_eq_true.1 name.goesOn)
  have noNumber : Token.startsNumber name.head name.tail = false := by
    have noDigit : Ascii.isDigit name.head = false := Bool.eq_false_iff.2 fun digit =>
      Token.notMem_of_apply name.starts (by rfl) (Token.mem_digits digit)
    have noPoint : name.head ∉ [Ascii.code '.'] := Token.notMem_of_apply name.starts (by rfl)
    simp [Token.startsNumber, noDigit, List.mem_singleton.not.1 noPoint]
  refine Token.isWord_of_scan ?_ (by simp) fun string => absurd string (by decide)
  rw [Token.scan_of_notMem_openers (Token.notMem_of_apply name.starts (by rfl)), noNumber,
    if_neg Bool.false_ne_true, if_pos name.starts, all, name.free]
  rfl

end Identifier

/-! ### Runs of bytes -/

lemma takeWhile_append_of_all {p : UInt8 → Bool} {front back : Bytes} (all : ∀ b ∈ front, p b)
    (stops : ∀ b ∈ back.head?, p b = false) : (front ++ back).takeWhile p = front := by
  have none : back.takeWhile p = [] := by
    cases back with
    | nil => rfl
    | cons b rest => exact List.takeWhile_cons_of_neg (Bool.eq_false_iff.1 (stops b rfl))
  rw [List.takeWhile_append_of_pos all, none, List.append_nil]

lemma dropWhile_of_none {p : UInt8 → Bool} {text : Bytes} (none : ∀ b ∈ text, p b = false) :
    text.dropWhile p = text := by
  cases text with
  | nil => rfl
  | cons b rest => exact List.dropWhile_cons_of_neg (Bool.eq_false_iff.1 (none b List.mem_cons_self))

lemma trim_of_none {p : UInt8 → Bool} {text : Bytes} (none : ∀ b ∈ text, p b = false) :
    Bytes.trim p text = text := by
  have reversed : ∀ b ∈ text.reverse, p b = false := fun b mem => none b (List.mem_reverse.1 mem)
  rw [Bytes.trim, dropWhile_of_none none, dropWhile_of_none reversed, List.reverse_reverse]

/-! ### Numerals -/

/-- The exponent of a numeral. -/
structure Exponent where
  isUpper : Bool
  /-- The sign, if it is written, as whether it is a minus. -/
  sign : Option Bool
  digits : Bytes
  allDigits : digits.all Ascii.isDigit
  someDigits : digits ≠ []

namespace Exponent

def mark (x : Exponent) : UInt8 := Ascii.code (if x.isUpper then 'E' else 'e')

def signText (x : Exponent) : Bytes :=
  match x.sign with
  | none => []
  | some negative => [Ascii.code (if negative then '-' else '+')]

def text (x : Exponent) : Bytes := x.mark :: (x.signText ++ x.digits)

def value (x : Exponent) : Int :=
  if x.sign = some true then -(Number.natOfDigits 10 x.digits : Int) else Number.natOfDigits 10 x.digits

lemma exists_digits (x : Exponent) : ∃ b rest, x.digits = b :: rest ∧ Ascii.isDigit b := by
  obtain ⟨b, rest, digits⟩ := List.exists_cons_of_ne_nil x.someDigits
  have all := x.allDigits
  rw [digits, List.all_cons, Bool.and_eq_true] at all
  exact ⟨b, rest, digits, all.1⟩

lemma takeWhile_digits (x : Exponent) : x.digits.takeWhile Ascii.isDigit = x.digits :=
  List.takeWhile_eq_self_iff.2 (List.all_eq_true.1 x.allDigits)

lemma exponentLength_text (x : Exponent) : Token.exponentLength x.text = x.text.length := by
  obtain ⟨b, rest, digits, digit⟩ := x.exists_digits
  have noSigns : Token.digits.any (fun b => b = Ascii.code '+' || b = Ascii.code '-') = false := by rfl
  have sign : Token.signLength (x.signText ++ x.digits) = x.signText.length := by
    rw [signText]
    cases x.sign with
    | none =>
      rw [digits]
      exact if_neg (List.any_eq_false.1 noSigns b (Token.mem_digits digit))
    | some negative => cases negative <;> rfl
  have isMark : (x.mark = Ascii.code 'e' || x.mark = Ascii.code 'E') = true := by
    rw [mark]
    cases x.isUpper <;> decide
  rw [text, Token.exponentLength_cons, if_pos isMark, sign, List.drop_left, x.takeWhile_digits, digits]
  change 1 + x.signText.length + (rest.length + 1) = (x.signText ++ b :: rest).length + 1
  rw [List.length_append, List.length_cons]
  omega

lemma splitSign_digits (x : Exponent) :
    Number.splitSign (x.signText ++ x.digits) = (decide (x.sign = some true), x.digits) := by
  rw [signText]
  cases x.sign with
  | none =>
    obtain ⟨b, rest, digits, digit⟩ := x.exists_digits
    have noSigns : ∀ b ∈ Token.digits, b ≠ 0x2D ∧ b ≠ 0x2B := by decide +kernel
    rw [digits]
    simp [Number.splitSign, noSigns b (Token.mem_digits digit)]
  | some negative => cases negative <;> rfl

lemma exponent?_text (x : Exponent) : Number.exponent? 'e' x.text = some x.value := by
  have isMark : Ascii.toLower x.mark = Ascii.code 'e' := by
    rw [mark]
    cases x.isUpper <;> decide
  rw [text, Number.exponent?, x.splitSign_digits]
  simp [isMark, x.allDigits, x.someDigits, value]

end Exponent

/-- A decimal numeral: digits with a point among them or without one, and possibly an exponent. -/
structure Numeral where
  whole : Bytes
  /-- The digits behind the point, if there is one. -/
  fraction : Option Bytes
  exponent : Option Exponent
  allDigits : (whole ++ fraction.getD []).all Ascii.isDigit
  someDigits : whole ++ fraction.getD [] ≠ []

namespace Numeral

def fractionText (n : Numeral) : Bytes :=
  match n.fraction with
  | none => []
  | some digits => Ascii.code '.' :: digits

def exponentText (n : Numeral) : Bytes := (n.exponent.map Exponent.text).getD []

def text (n : Numeral) : Bytes := n.whole ++ n.fractionText ++ n.exponentText

def token (n : Numeral) : Token := { kind := .number, text := n.text, pos := 0 }

/-- The nearest floating-point number. -/
def value (n : Numeral) : Float :=
  let digits := Number.natOfDigits 10 (n.whole ++ n.fraction.getD [])
  let exponent := (n.exponent.map Exponent.value).getD 0
  Number.ofBits false
    (Number.scaledBits 10 digits (Number.digitCount digits) (exponent - (n.fraction.getD []).length))

variable (n : Numeral)

lemma whole_digits : ∀ b ∈ n.whole, Ascii.isDigit b := fun b mem =>
  List.all_eq_true.1 n.allDigits b (List.mem_append_left _ mem)

lemma fraction_digits : ∀ digits ∈ n.fraction, ∀ b ∈ digits, Ascii.isDigit b := fun digits some b mem =>
  List.all_eq_true.1 n.allDigits b (List.mem_append_right _ (by rw [some]; exact mem))

lemma head?_exponentText : ∀ b ∈ n.exponentText.head?, b = Ascii.code 'e' ∨ b = Ascii.code 'E' := by
  rw [exponentText]
  cases n.exponent with
  | none => nofun
  | some x =>
    intro b mem
    cases mem
    rw [Exponent.mark]
    cases x.isUpper
    · exact .inl rfl
    · exact .inr rfl

lemma mantissa : ∀ b ∈ n.whole ++ n.fractionText, Token.isMantissa b := by
  have digit {b : UInt8} (digit : Ascii.isDigit b) : Token.isMantissa b := by
    simp [Token.isMantissa, digit]
  have fraction := n.fraction_digits
  refine List.forall_mem_append.2 ⟨fun b mem => digit (n.whole_digits b mem), ?_⟩
  rw [fractionText]
  cases some : n.fraction with
  | none => exact List.forall_mem_nil _
  | some digits => exact List.forall_mem_cons.2 ⟨rfl, fun b mem => digit (fraction digits some b mem)⟩

/-- The first byte is a digit, or a point with a digit behind it. -/
lemma exists_cons : ∃ b rest, n.whole ++ n.fractionText = b :: rest ∧
    ∀ behind, Token.startsNumber b (rest ++ behind) := by
  have whole := n.whole_digits
  have fraction := n.fraction_digits
  have someDigits := n.someDigits
  rw [fractionText]
  cases digits : n.whole with
  | cons b rest =>
    rw [digits] at whole
    exact ⟨b, _, rfl, by simp [Token.startsNumber, whole]⟩
  | nil =>
    rw [digits] at someDigits
    cases some : n.fraction with
    | none => exact absurd (by rw [some]; rfl) someDigits
    | some digits =>
      rw [some, List.nil_append] at someDigits
      obtain ⟨b, rest, rfl⟩ := List.exists_cons_of_ne_nil someDigits
      have digit := fraction _ some b List.mem_cons_self
      exact ⟨Ascii.code '.', b :: rest, rfl, by simp [Token.startsNumber, digit]⟩

lemma exponentLength_exponentText : Token.exponentLength n.exponentText = n.exponentText.length := by
  rw [exponentText]
  cases n.exponent with
  | none => rfl
  | some x => exact x.exponentLength_text

lemma isWord_token : n.token.IsWord := by
  obtain ⟨b, rest, text, starts⟩ := n.exists_cons
  have whole : n.token = { kind := .number, text := b :: (rest ++ n.exponentText), pos := 0 } := by
    rw [token, Numeral.text, text, List.cons_append]
  have mantissa := n.mantissa
  rw [text, List.forall_mem_cons] at mantissa
  have stops : ∀ b ∈ n.exponentText.head?, Token.isMantissa b = false := by
    intro b mem
    rcases n.head?_exponentText b mem with rfl | rfl <;> decide
  rw [whole]
  refine Token.isWord_of_scan ?_ (by simp) nofun
  rw [Token.scan_of_notMem_openers (Token.notMem_of_apply mantissa.1 (by rfl)),
    if_pos (starts _), takeWhile_append_of_all mantissa.2 stops, List.drop_left,
    n.exponentLength_exponentText, List.length_append]

/-- The bytes that begin numerals. -/
def firstBytes : Bytes := Token.digits ++ [Ascii.code '.']

lemma exists_text : ∃ b rest, n.text = b :: rest ∧ b ∈ firstBytes := by
  obtain ⟨b, rest, text, starts⟩ := n.exists_cons
  have mantissa := n.mantissa
  rw [text, List.forall_mem_cons, Token.isMantissa, Bool.or_eq_true, beq_iff_eq] at mantissa
  refine ⟨b, rest ++ n.exponentText, by rw [Numeral.text, text, List.cons_append], ?_⟩
  rcases mantissa.1 with digit | rfl
  · exact List.mem_append_left _ (Token.mem_digits digit)
  · decide

/-- The bytes of numerals. -/
def alphabet : Bytes := Token.digits ++ bytes ".eE+-"

lemma mem_alphabet : ∀ b ∈ n.text, b ∈ alphabet := by
  have digit {b : UInt8} (digit : Ascii.isDigit b) : b ∈ alphabet :=
    List.mem_append_left _ (Token.mem_digits digit)
  have ofMantissa {b : UInt8} (mantissa : Token.isMantissa b) : b ∈ alphabet := by
    rw [Token.isMantissa, Bool.or_eq_true, beq_iff_eq] at mantissa
    rcases mantissa with isDigit | rfl
    · exact digit isDigit
    · decide
  refine List.forall_mem_append.2 ⟨fun b mem => ofMantissa (n.mantissa b mem), ?_⟩
  rw [exponentText]
  cases n.exponent with
  | none => exact List.forall_mem_nil _
  | some x =>
    refine List.forall_mem_cons.2 ⟨?_, List.forall_mem_append.2 ⟨?_, fun b mem => ?_⟩⟩
    · rw [Exponent.mark]
      cases x.isUpper <;> decide
    · rw [Exponent.signText]
      rcases x.sign with _ | _ | _ <;> decide +kernel
    · exact digit (List.all_eq_true.1 x.allDigits b mem)

lemma noDigit_exponentText : ∀ b ∈ n.exponentText.head?, Ascii.isDigit b = false := by
  intro b mem
  rcases n.head?_exponentText b mem with rfl | rfl <;> decide

lemma splitMantissa?_text : Number.splitMantissa? Ascii.isDigit n.text =
    some (n.whole, n.fraction.getD [], n.exponentText) := by
  have behind : ∀ b ∈ (n.fractionText ++ n.exponentText).head?, Ascii.isDigit b = false := by
    rw [fractionText]
    cases n.fraction with
    | none => exact n.noDigit_exponentText
    | some digits =>
      intro b mem
      cases mem
      decide
  have someDigits := n.someDigits
  have fraction := n.fraction_digits
  rw [Number.splitMantissa?, Numeral.text, List.append_assoc, takeWhile_append_of_all n.whole_digits behind]
  dsimp only
  rw [List.drop_left, fractionText]
  cases some : n.fraction with
  | none =>
    rw [some] at someDigits
    have noPoint : ∀ b ∈ n.exponentText.head?, b ≠ 0x2E := by
      intro b mem
      rcases n.head?_exponentText b mem with rfl | rfl <;> decide
    cases text : n.exponentText with
    | nil => simpa using someDigits
    | cons b rest =>
      rw [text] at noPoint
      have other : b ≠ 0x2E := noPoint b rfl
      simpa [other] using someDigits
  | some digits =>
    rw [some] at someDigits
    have inside : (digits ++ n.exponentText).takeWhile Ascii.isDigit = digits :=
      takeWhile_append_of_all (fraction digits some) n.noDigit_exponentText
    have point : Ascii.code '.' = 0x2E := rfl
    simpa [point, inside] using someDigits

lemma decimalBits?_text : (Number.decimalBits? n.text).map (Number.ofBits false) = some n.value := by
  have exponent : Number.exponent? 'e' n.exponentText = some ((n.exponent.map Exponent.value).getD 0) := by
    rw [exponentText]
    cases n.exponent with
    | none => rfl
    | some x => exact x.exponent?_text
  rw [Number.decimalBits?, n.splitMantissa?_text]
  simp [exponent, value]

/-- A numeral has no sign in front. -/
lemma splitSign_text : Number.splitSign n.text = (false, n.text) := by
  obtain ⟨b, rest, text, first⟩ := n.exists_text
  have plain : ∀ b ∈ firstBytes, b ≠ 0x2D ∧ b ≠ 0x2B := by decide +kernel
  rw [text]
  simp [Number.splitSign, plain b first]

lemma beq_eq_false_of_head {b c : UInt8} {word : Bytes} (other : b ≠ c) (begins : word.head? = some c)
    (tail : Bytes) : (b :: tail == word) = false := by
  rw [beq_eq_false_iff_ne]
  rintro rfl
  exact other (Option.some.inj begins)

/-- A numeral is no word for an infinity or for what is no number. -/
lemma wordBits?_text : Number.wordBits? n.text = none := by
  obtain ⟨b, rest, text, first⟩ := n.exists_text
  have noLetter : ∀ b ∈ firstBytes, Ascii.toLower b ≠ Ascii.code 'i' ∧
      Ascii.toLower b ≠ Ascii.code 'n' := by decide +kernel
  obtain ⟨noI, noN⟩ := noLetter b first
  have noPayload : (List.take 3 (Ascii.toLower b :: rest.map Ascii.toLower) == bytes "nan") = false :=
    beq_eq_false_of_head noN (by decide) _
  have noInf (tail : Bytes) : (Ascii.toLower b :: tail == bytes "inf") = false :=
    beq_eq_false_of_head noI (by decide) tail
  have noInfinity (tail : Bytes) : (Ascii.toLower b :: tail == bytes "infinity") = false :=
    beq_eq_false_of_head noI (by decide) tail
  rw [text, Number.wordBits?, List.map_cons]
  simp only [noPayload, noInf, noInfinity]
  rfl

lemma forall_mem_text {p : UInt8 → Bool} (none : alphabet.any p = false) : ∀ b ∈ n.text, p b = false :=
  fun b mem => Bool.eq_false_iff.2 (List.any_eq_false.1 none b (n.mem_alphabet b mem))

/-- A numeral is not hexadecimal. -/
lemma hexBits?_text : Number.hexBits? n.text = none := by
  have noMark : ∀ b ∈ n.text, (Ascii.toLower b == Ascii.code 'x') = false := n.forall_mem_text (by rfl)
  unfold Number.hexBits?
  split
  · rename_i x behind same
    rw [same] at noMark
    have other : Ascii.toLower x ≠ Ascii.code 'x' := beq_eq_false_iff_ne.1 (noMark x (by simp))
    simp [other]
  · rfl

/-- The grammar reads the nearest floating-point number. -/
theorem read?_text : Number.read? n.text = some n.value := by
  have blank : ∀ b ∈ n.text, Number.isBlank b = false := n.forall_mem_text (by rfl)
  have space : ∀ b ∈ n.text, Ascii.isSpace b = false := n.forall_mem_text (by rfl)
  rw [Number.read?, trim_of_none blank, dropWhile_of_none space, n.splitSign_text]
  dsimp only
  rw [n.wordBits?_text, n.hexBits?_text]
  exact n.decimalBits?_text

end Numeral

/-! ### String literals -/

/-- What stands between the quotes of a literal: bytes, and escaped bytes. -/
inductive LiteralByte where
  | plain (b : UInt8) (free : b ≠ Ascii.backslash)
  | escaped (b : UInt8)

namespace LiteralByte

def text : LiteralByte → Bytes
  | plain b _ => [b]
  | escaped b => [Ascii.backslash, b]

def value : LiteralByte → UInt8
  | plain b _ => b
  | escaped b => unescape b

end LiteralByte

/-- A string literal in double or single quotes. -/
structure StringLiteral where
  isDouble : Bool
  content : List LiteralByte
  /-- The quote stands between the quotes only if it is escaped. -/
  closedBy : ∀ b free, .plain b free ∈ content → b ≠ if isDouble then Ascii.doubleQuote else Ascii.singleQuote

namespace StringLiteral

variable (l : StringLiteral)

def quote : UInt8 := if l.isDouble then Ascii.doubleQuote else Ascii.singleQuote

def body : Bytes := l.content.flatMap LiteralByte.text

def text : Bytes := l.quote :: (l.body ++ [l.quote])

def token : Token := { kind := .string, text := l.text, pos := 0 }

def value : Bytes := l.content.map LiteralByte.value

lemma scanString_content {quote : UInt8} (noEscape : quote ≠ Ascii.backslash) {content : List LiteralByte}
    (closedBy : ∀ b free, .plain b free ∈ content → b ≠ quote) (behind : Bytes) :
    Token.scanString quote (content.flatMap LiteralByte.text ++ quote :: behind) =
      ((content.flatMap LiteralByte.text).length + 1, true) := by
  induction content with
  | nil =>
    unfold Token.scanString
    exact if_pos rfl
  | cons item content ih =>
    have ih := ih fun b free mem => closedBy b free (List.mem_cons_of_mem _ mem)
    rw [List.flatMap_cons, List.append_assoc]
    cases item with
    | plain b free =>
      have other : b ≠ quote := closedBy b free List.mem_cons_self
      rw [LiteralByte.text, List.singleton_append]
      unfold Token.scanString
      rw [if_neg other, if_neg free, ih]
      rfl
    | escaped b =>
      rw [LiteralByte.text, List.cons_append, List.singleton_append]
      unfold Token.scanString
      rw [if_neg (Ne.symm noEscape), if_pos rfl]
      dsimp only
      rw [ih]
      rfl

lemma quote_mem : l.quote = Ascii.doubleQuote ∨ l.quote = Ascii.singleQuote := by
  rw [quote]
  split
  · exact .inl rfl
  · exact .inr rfl

lemma scanString_body :
    Token.scanString l.quote (l.body ++ [l.quote]) = ((l.body ++ [l.quote]).length, true) := by
  have noEscape : l.quote ≠ Ascii.backslash := by
    rcases l.quote_mem with quote | quote <;> rw [quote] <;> decide
  rw [body, scanString_content noEscape l.closedBy []]
  simp

lemma isWord_token : l.token.IsWord := by
  refine Token.isWord_of_scan ?_ (by simp) fun _ => congrArg Prod.snd l.scanString_body
  have isQuote : (l.quote = Ascii.doubleQuote || l.quote = Ascii.singleQuote) = true := by
    simpa using l.quote_mem
  have unmarked : Token.isBlank l.quote = false ∧ l.quote ≠ Ascii.code '#' := by
    rcases l.quote_mem with quote | quote <;> rw [quote] <;> decide
  rw [Token.scan, if_neg (by simp [unmarked]), if_neg unmarked.2, if_pos isQuote, l.scanString_body]

lemma unescapeAll_content (content : List LiteralByte) :
    unescapeAll (content.flatMap LiteralByte.text) = content.map LiteralByte.value := by
  induction content with
  | nil => rfl
  | cons item content ih =>
    rw [List.flatMap_cons, List.map_cons, ← ih]
    cases item with
    | plain b free =>
      have free : b ≠ 0x5C := free
      rw [LiteralByte.text, List.singleton_append]
      cases content.flatMap LiteralByte.text <;> simp [unescapeAll, free, LiteralByte.value]
    | escaped b => rfl

/-- The grammar reads the bytes between the quotes, the escaped ones for what they stand for. -/
theorem unquote?_text : unquote? l.text = some l.value := by
  rw [text, unquote?, List.getLast?_concat, if_pos rfl, List.dropLast_concat, body, unescapeAll_content]
  rfl

end StringLiteral
end CalcShell.Calc
