import CalcShell.Proofs.Calc.Literals
import CalcShell.Screen.Renderer

/-! The tokens of a line tile it. None of them is empty, and each is read in the same way by itself and
with all that follows it, whatever the bytes are. -/
namespace CalcShell.Calc.Token

/-! ### A token by itself -/

lemma takeWhile_take {p : UInt8 → Bool} {text : Bytes} {n : Nat}
    (within : (text.takeWhile p).length ≤ n) : (text.take n).takeWhile p = text.takeWhile p := by
  rw [← List.take_takeWhile, List.take_of_length_le within]

lemma scanString_take (quote : UInt8) (text : Bytes) :
    scanString quote (text.take (scanString quote text).1) = scanString quote text := by
  fun_induction scanString quote text with
  | case1 => rfl
  | case2 rest =>
    rw [List.take_succ_cons]
    unfold scanString
    rw [if_pos rfl]
  | case3 other =>
    rw [List.take_succ_cons, List.take_nil]
    unfold scanString
    rw [if_neg other, if_pos rfl]
  | case4 hidden rest n closed scanned other ih =>
    rw [scanned] at ih
    rw [List.take_succ_cons, List.take_succ_cons]
    unfold scanString
    rw [if_neg other, if_pos rfl]
    dsimp only
    rw [ih]
  | case5 b rest other plain n closed scanned ih =>
    rw [scanned] at ih
    rw [List.take_succ_cons]
    unfold scanString
    rw [if_neg other, if_neg plain, ih]

lemma signLength_take {text : Bytes} {n : Nat} (some : 0 < n) :
    signLength (text.take n) = signLength text := by
  rw [signLength, List.head?_take, if_neg (Nat.ne_of_gt some), signLength]

/-- Digits behind the letter of an exponent and its sign. -/
def exponentDigits (rest : Bytes) : Nat :=
  ((rest.drop (signLength rest)).takeWhile Ascii.isDigit).length

lemma exponentLength_of_letter {e : UInt8} (letter : (e = Ascii.code 'e' || e = Ascii.code 'E') = true)
    (rest : Bytes) : exponentLength (e :: rest) =
      if exponentDigits rest = 0 then 0 else 1 + signLength rest + exponentDigits rest := by
  rw [exponentLength_cons, if_pos letter, exponentDigits]
  split
  · rename_i none
    rw [if_pos none]
  · rename_i some
    rw [if_neg some]

lemma exponentDigits_take {rest : Bytes} {n : Nat} (within : signLength rest + exponentDigits rest ≤ n)
    (some : 0 < n) : exponentDigits (rest.take n) = exponentDigits rest := by
  rw [exponentDigits, signLength_take some, List.drop_take, takeWhile_take, exponentDigits]
  exact Nat.le_sub_of_add_le' within

lemma exponentLength_take (text : Bytes) :
    exponentLength (text.take (exponentLength text)) = exponentLength text := by
  cases text with
  | nil => rfl
  | cons e rest =>
    by_cases letter : (e = Ascii.code 'e' || e = Ascii.code 'E') = true
    · rw [exponentLength_of_letter letter]
      split
      · rfl
      · rename_i digits
        have some : 0 < signLength rest + exponentDigits rest := by omega
        rw [Nat.add_assoc, Nat.add_comm, List.take_succ_cons, exponentLength_of_letter letter,
          exponentDigits_take (Nat.le_refl _) some, signLength_take some, if_neg digits]
        omega
    · rw [exponentLength_cons, if_neg letter]
      rfl

/-- A byte that begins no number with all that follows begins none with less of it. -/
lemma startsNumber_take {b : UInt8} {rest : Bytes} (other : startsNumber b rest = false) (n : Nat) :
    startsNumber b (rest.take n) = false := by
  rw [startsNumber, Bool.or_eq_false_iff] at other ⊢
  rw [List.head?_take]
  split
  · exact ⟨other.1, Bool.and_false _⟩
  · exact other

/-- Bytes that a number takes behind its first one. -/
def numberLength (rest : Bytes) : Nat :=
  (rest.takeWhile isMantissa).length + exponentLength (rest.drop (rest.takeWhile isMantissa).length)

lemma numberLength_take (rest : Bytes) :
    numberLength (rest.take (numberLength rest)) = numberLength rest := by
  have mantissa : (rest.take (numberLength rest)).takeWhile isMantissa = rest.takeWhile isMantissa :=
    takeWhile_take (Nat.le_add_right _ _)
  have behind : numberLength rest - (rest.takeWhile isMantissa).length =
      exponentLength (rest.drop (rest.takeWhile isMantissa).length) := Nat.add_sub_cancel_left ..
  calc numberLength (rest.take (numberLength rest))
    _ = (rest.takeWhile isMantissa).length + exponentLength
          ((rest.drop (rest.takeWhile isMantissa).length).take
            (exponentLength (rest.drop (rest.takeWhile isMantissa).length))) := by
        rw [numberLength, mantissa, List.drop_take, behind]
    _ = numberLength rest := by rw [exponentLength_take, numberLength]

/-- A point at the front of a number has a digit behind it, which belongs to the number. -/
lemma startsNumber_take_numberLength {b : UInt8} {rest : Bytes} (number : startsNumber b rest = true) :
    startsNumber b (rest.take (numberLength rest)) = true := by
  rw [startsNumber, Bool.or_eq_true, Bool.and_eq_true] at number ⊢
  rcases number with digit | ⟨point, digit⟩
  · exact .inl digit
  · cases rest with
    | nil => cases digit
    | cons d rest =>
      have digit : Ascii.isDigit d = true := digit
      have mantissa : isMantissa d = true := by rw [isMantissa, digit, Bool.true_or]
      have some : numberLength (d :: rest) ≠ 0 := by
        rw [numberLength, List.takeWhile_cons_of_pos mantissa, List.length_cons]
        omega
      rw [List.head?_take, if_neg some]
      exact .inr ⟨point, digit⟩

/-- A token is read in the same way without what follows it. -/
theorem scan_take (b : UInt8) (rest : Bytes) :
    scan b (rest.take (scan b rest).2) = scan b rest := by
  by_cases blank : isBlank b = true
  · rw [scan_of_isBlank blank, scan_of_isBlank blank, takeWhile_take (Nat.le_refl _)]
  by_cases hash : b = Ascii.code '#'
  · have comment (text : Bytes) : scan b text = (.comment, text.length) := by
      rw [scan, if_neg blank, if_pos hash]
    rw [comment, comment, List.take_length]
  by_cases quote : (b = Ascii.doubleQuote || b = Ascii.singleQuote) = true
  · have string (text : Bytes) : scan b text = (.string, (scanString b text).1) := by
      rw [scan, if_neg blank, if_neg hash, if_pos quote]
    rw [string, string, scanString_take]
  have plain : b ∉ openers := by
    simp only [isBlank, Bool.or_eq_true, beq_iff_eq, decide_eq_true_eq, not_or] at blank quote
    simp [openers, blank, hash, quote]
  by_cases number : startsNumber b rest = true
  · have numeral {text : Bytes} (number : startsNumber b text = true) :
        scan b text = (.number, numberLength text) := by
      rw [scan_of_notMem_openers plain, if_pos number, numberLength]
    rw [numeral number, numeral (startsNumber_take_numberLength number), numberLength_take]
  have other (n : Nat) : startsNumber b (rest.take n) ≠ true := by
    rw [startsNumber_take (Bool.eq_false_iff.2 number)]
    exact Bool.false_ne_true
  rw [scan_of_notMem_openers plain rest, if_neg number, scan_of_notMem_openers plain, if_neg (other _)]
  by_cases name : startsName b = true
  · rw [if_pos name, if_pos name, takeWhile_take (Nat.le_refl _)]
  rw [if_neg name, if_neg name]
  by_cases punctuation : isPunctuation b = true
  · rw [if_pos punctuation, if_pos punctuation]
  rw [if_neg punctuation, if_neg punctuation]
  by_cases double : doubleOperators.contains (b :: rest.take 1) = true
  · rw [if_pos double, List.take_take, Nat.min_self, if_pos double]
  · have single : doubleOperators.contains [b] ≠ true := by
      intro mem
      have length : [b].length = 2 := (length_of_mem_doubleOperators _ (List.contains_iff_mem.1 mem)).1
      cases length
    rw [if_neg double, List.take_take, Nat.min_zero, List.take_zero, if_neg single]

/-! ### The tokens of a line -/

/-- The token so many bytes further behind. -/
def shift (n : Nat) (token : Token) : Token := { token with pos := n + token.pos }

lemma lexFrom_cons (pos : Nat) (b : UInt8) (rest : Bytes) :
    lexFrom pos (b :: rest) =
      { kind := (scan b rest).1, text := b :: rest.take (scan b rest).2, pos } ::
        lexFrom (pos + 1 + (scan b rest).2) (rest.drop (scan b rest).2) := by
  rw [lexFrom]

lemma lexFrom_nil (pos : Nat) : lexFrom pos [] = [] := by rw [lexFrom]

lemma lexFrom_add (n pos : Nat) (text : Bytes) :
    lexFrom (n + pos) text = (lexFrom pos text).map (shift n) := by
  induction text using token_induction generalizing pos with
  | nil => rw [lexFrom_nil, lexFrom_nil, List.map_nil]
  | cons b rest ih =>
    have behind : n + pos + 1 + (scan b rest).2 = n + (pos + 1 + (scan b rest).2) := by omega
    rw [lexFrom_cons, lexFrom_cons, List.map_cons, ← ih, behind]
    rfl

/-- Where the tokens of a text are parted, those behind are the tokens of the text behind. -/
lemma lexFrom_eq_append {pos : Nat} {text : Bytes} {front back : List Token}
    (parted : lexFrom pos text = front ++ back) :
    ∃ behind, text = front.flatMap Token.text ++ behind ∧
      back = lexFrom (pos + (front.flatMap Token.text).length) behind := by
  induction front generalizing pos text with
  | nil => exact ⟨text, rfl, parted.symm⟩
  | cons token front ih =>
    cases text with
    | nil =>
      rw [lexFrom_nil] at parted
      cases parted
    | cons b rest =>
      rw [lexFrom_cons, List.cons_append] at parted
      obtain ⟨rfl, others⟩ := List.cons.inj parted
      obtain ⟨behind, split, rfl⟩ := ih others
      refine ⟨behind, ?_, ?_⟩
      · rw [List.flatMap_cons, List.append_assoc, ← split, List.cons_append, List.take_append_drop]
      · have length := List.length_take_of_le (scan_le b rest)
        rw [List.flatMap_cons, List.length_append, List.length_cons, length]
        congr 1
        omega

lemma flatMap_text_lex (text : Bytes) : (lex text).flatMap Token.text = text := by
  obtain ⟨behind, split, none⟩ := lexFrom_eq_append (List.append_nil (lex text)).symm
  cases behind with
  | nil => rw [List.append_nil] at split; exact split.symm
  | cons b rest =>
    rw [lexFrom_cons] at none
    cases none

/-- A token tells by its own text what it is. -/
lemma lex_of_scan (b : UInt8) (rest : Bytes) :
    lex (b :: rest.take (scan b rest).2) =
      [{ kind := (scan b rest).1, text := b :: rest.take (scan b rest).2, pos := 0 }] := by
  have length := List.length_take_of_le (scan_le b rest)
  rw [lex, lexFrom_cons, scan_take, List.take_take, Nat.min_self,
    List.drop_eq_nil_of_le (Nat.le_of_eq length), lexFrom_nil]

/-- The tokens of a line, whatever its bytes are, are pieces of it that are not empty and make it up,
and each of them stands where the ones before it end. The text behind any token reads as the tokens
behind it, and its own text as that token alone. So the highlighted line reads back as the text and is
shown as it is, and no character is parted. -/
theorem lex_tiles (text : Bytes) :
    (lex text).flatMap Token.text = text ∧
      (∀ front token back, lex text = front ++ token :: back →
        token.text ≠ [] ∧ token.pos = (front.flatMap Token.text).length ∧
          token :: back = (lex (text.drop token.pos)).map (shift token.pos) ∧
          lex token.text = [{ token with pos := 0 }]) ∧
      (highlight text).plain = text ∧
      (∀ r : Renderer, r.tokenize = highlight → r.showsTokens = true →
        r.highlight text = highlight text) ∧
      (Utf8.IsValid text → ∀ token ∈ lex text, Utf8.IsValid token.text) := by
  have plain : (highlight text).plain = text := by
    rw [highlight, StyledLine.plain_merge, StyledLine.plain, List.flatMap_map]
    exact flatMap_text_lex text
  refine ⟨flatMap_text_lex text, fun front token back parted => ?_, plain, fun r lexes shows => ?_,
    fun valid token mem => isValid_of_mem_lex valid mem⟩
  · obtain ⟨behind, split, isBack⟩ := lexFrom_eq_append parted
    have from_ : text.drop (front.flatMap Token.text).length = behind := by
      rw [split, List.drop_left]
    cases behind with
    | nil =>
      rw [lexFrom_nil] at isBack
      cases isBack
    | cons b rest =>
      have first := isBack
      rw [lexFrom_cons, Nat.zero_add] at first
      obtain ⟨rfl, -⟩ := List.cons.inj first
      refine ⟨List.cons_ne_nil _ _, rfl, ?_, lex_of_scan b rest⟩
      rw [isBack, from_, lex, ← lexFrom_add, Nat.add_zero, Nat.zero_add]
  · rw [Renderer.highlight, lexes, shows, plain, beq_self_eq_true]
    rfl

/-- The letter in a line that also has an exponent without digits and a string that is not closed. -/
theorem lex_tiles_open_string :
    let text := bytes "2.5e+é='a"
    let letter : Token := { kind := .name, text := bytes "é", pos := 5 }
    ∃ front back, lex text = front ++ letter :: back ∧
      letter :: back = (lex (text.drop 5)).map (shift 5) ∧ lex letter.text = [{ letter with pos := 0 }] ∧
      Utf8.IsValid letter.text := by
  intro text letter
  let front : List Token := [⟨.number, bytes "2.5", 0⟩, ⟨.name, bytes "e", 3⟩, ⟨.operator, bytes "+", 4⟩]
  let back : List Token := [⟨.operator, bytes "=", 7⟩, ⟨.string, bytes "'a", 8⟩]
  have parted : lex text = front ++ letter :: back := by decide +kernel
  have mem : letter ∈ lex text := by
    rw [parted]
    exact List.mem_append_right _ List.mem_cons_self
  obtain ⟨-, tokens, -, -, characters⟩ := lex_tiles text
  obtain ⟨-, -, behind, alone⟩ := tokens front letter back parted
  exact ⟨front, back, parted, behind, alone,
    characters (Utf8.isValid_encode "2.5e+é='a".toList) letter mem⟩

end CalcShell.Calc.Token
