import CalcShell.Proofs.Calc.Tiling

/-! The places of a line and the tokens that stand there. Each place belongs to one token, and a byte that
begins a string or a comment, opens or closes a bracket or parts arguments does so wherever it stands, unless
that is inside of a string or a comment. -/
namespace CalcShell.Calc.Token

/-! ### The token at a place -/

variable {pos i : Nat} {text : Bytes} {token other : Token}

/-- A token is the one that the text begins with from its place on. -/
lemma exists_scan_of_mem_lexFrom (mem : token ∈ lexFrom pos text) :
    pos ≤ token.pos ∧ ∃ b rest, text.drop (token.pos - pos) = b :: rest ∧
      token.kind = (scan b rest).1 ∧ token.text = b :: rest.take (scan b rest).2 := by
  induction text using token_induction generalizing pos with
  | nil =>
    rw [lexFrom_nil] at mem
    cases mem
  | cons b rest ih =>
    rw [lexFrom_cons, List.mem_cons] at mem
    rcases mem with rfl | mem
    · exact ⟨Nat.le_refl _, b, rest, by rw [Nat.sub_self]; rfl, rfl, rfl⟩
    · obtain ⟨behind, c, others, place, scanned⟩ := ih mem
      refine ⟨by omega, c, others, ?_, scanned⟩
      have offset : token.pos - pos =
          (scan b rest).2 + (token.pos - (pos + 1 + (scan b rest).2)) + 1 := by omega
      rw [offset, List.drop_succ_cons, ← List.drop_drop, place]

/-- The token stands at a place. -/
def Covers (token : Token) (i : Nat) : Prop := token.pos ≤ i ∧ i < token.pos + token.text.length

lemma length_text_scan (b : UInt8) (rest : Bytes) :
    (b :: rest.take (scan b rest).2).length = 1 + (scan b rest).2 := by
  rw [List.length_cons, List.length_take_of_le (scan_le b rest), Nat.add_comm]

lemma covers_pos (mem : token ∈ lexFrom pos text) : token.Covers token.pos := by
  obtain ⟨-, b, rest, -, -, whole⟩ := exists_scan_of_mem_lexFrom mem
  refine ⟨Nat.le_refl _, ?_⟩
  rw [whole, length_text_scan]
  omega

lemma exists_covers (low : pos ≤ i) (high : i < pos + text.length) :
    ∃ token ∈ lexFrom pos text, token.Covers i := by
  induction text using token_induction generalizing pos with
  | nil => exact absurd high (Nat.not_lt.2 low)
  | cons b rest ih =>
    have length := length_text_scan b rest
    rw [lexFrom_cons]
    by_cases inside : i < pos + (1 + (scan b rest).2)
    · exact ⟨_, List.mem_cons_self, low, by rw [length]; exact inside⟩
    · have within := scan_le b rest
      rw [List.length_cons] at high
      obtain ⟨token, mem, covers⟩ := @ih (pos + 1 + (scan b rest).2) (by omega)
        (by rw [List.length_drop]; omega)
      exact ⟨token, List.mem_cons_of_mem _ mem, covers⟩

/-- No two tokens stand at one place. -/
lemma eq_of_covers (mem : token ∈ lexFrom pos text) (otherMem : other ∈ lexFrom pos text)
    (covers : token.Covers i) (otherCovers : other.Covers i) : token = other := by
  induction text using token_induction generalizing pos with
  | nil =>
    rw [lexFrom_nil] at mem
    cases mem
  | cons b rest ih =>
    have behind {t : Token} (mem : t ∈ lexFrom (pos + 1 + (scan b rest).2) (rest.drop (scan b rest).2))
        (covers : t.Covers i) : pos + 1 + (scan b rest).2 ≤ i :=
      (exists_scan_of_mem_lexFrom mem).1.trans covers.1
    have front : ¬pos + 1 + (scan b rest).2 ≤ i ∨ ¬Covers
        { kind := (scan b rest).1, text := b :: rest.take (scan b rest).2, pos } i := by
      rw [Covers, length_text_scan]
      dsimp only
      omega
    rw [lexFrom_cons, List.mem_cons] at mem otherMem
    rcases mem with rfl | mem <;> rcases otherMem with rfl | otherMem
    · rfl
    · exact (front.elim (absurd (behind otherMem otherCovers) ·) (absurd covers ·))
    · exact (front.elim (absurd (behind mem covers) ·) (absurd otherCovers ·))
    · exact ih mem otherMem

/-- The bytes of a token are those of the text at the places where it stands. -/
lemma getElem?_text (mem : token ∈ lexFrom pos text) (covers : token.Covers i) :
    token.text[i - token.pos]? = text[i - pos]? := by
  obtain ⟨low, b, rest, place, -, whole⟩ := exists_scan_of_mem_lexFrom mem
  have length := length_text_scan b rest
  rw [← whole] at length
  have inside : i - token.pos < 1 + (scan b rest).2 := by
    have := covers.2
    omega
  have prefixed : token.text = (text.drop (token.pos - pos)).take (1 + (scan b rest).2) := by
    rw [place, whole, Nat.add_comm, List.take_succ_cons]
  have offset : i - pos = token.pos - pos + (i - token.pos) := by
    have := covers.1
    omega
  rw [prefixed, List.getElem?_take_of_lt inside, List.getElem?_drop, offset]

lemma exists_mem_text (mem : token ∈ lexFrom pos text) (covers : token.Covers i) :
    ∃ b ∈ token.text, text[i - pos]? = some b := by
  have inside : i - token.pos < token.text.length := by
    obtain ⟨low, high⟩ := covers
    omega
  refine ⟨token.text[i - token.pos], List.getElem_mem inside, ?_⟩
  rw [← getElem?_text mem covers, List.getElem?_eq_getElem inside]

lemma lt_length_of_covers (mem : token ∈ lexFrom pos text) (covers : token.Covers i) :
    i < pos + text.length := by
  obtain ⟨b, -, read⟩ := exists_mem_text mem covers
  obtain ⟨within, -⟩ := List.getElem?_eq_some_iff.1 read
  omega

/-! ### What a token can be -/

/-- The bytes that begin strings and comments, open and close brackets and part arguments. -/
def marks : Bytes := bytes "\"'#()[]\x7b\x7d,"

/-- An ASCII character that is no mark. -/
def isPlain (b : UInt8) : Bool := !marks.contains b && b < 0x80

lemma isPlain_iff (b : UInt8) : isPlain b = true ↔ b ∉ marks ∧ b < 0x80 := by
  rw [isPlain, Bool.and_eq_true, Bool.not_eq_true', decide_eq_true_eq, ← Bool.not_eq_true,
    List.contains_iff_mem]

lemma forall_mem_take_takeWhile {p : UInt8 → Bool} {P : UInt8 → Prop} (holds : ∀ b, p b = true → P b)
    (text : Bytes) : ∀ b ∈ text.take (text.takeWhile p).length, P b := by
  intro b mem
  rw [take_length_takeWhile] at mem
  exact holds b (List.mem_takeWhile_imp mem)

lemma isPlain_of_isBlank (b : UInt8) (blank : isBlank b = true) : isPlain b = true :=
  (isPlain_iff b).2 ⟨notMem_of_apply blank (by rfl), lt_of_isBlank blank⟩

lemma isPlain_of_isDigit (b : UInt8) (digit : Ascii.isDigit b = true) : isPlain b = true :=
  (isPlain_iff b).2 ⟨notMem_of_apply digit (by rfl), lt_of_isDigit digit⟩

lemma isPlain_of_isMantissa (b : UInt8) (mantissa : isMantissa b = true) : isPlain b = true :=
  (isPlain_iff b).2 ⟨notMem_of_apply mantissa (by rfl), lt_of_isMantissa mantissa⟩

lemma notMem_marks_of_continuesName (b : UInt8) (continues : continuesName b = true) : b ∉ marks :=
  notMem_of_apply continues (by rfl)

/-- The bytes of a number. -/
lemma isPlain_of_startsNumber {b : UInt8} {rest : Bytes} (number : startsNumber b rest = true) :
    ∀ c ∈ b :: rest.take (numberLength rest), isPlain c = true := by
  have first : isMantissa b = true := by
    rw [startsNumber, Bool.or_eq_true, Bool.and_eq_true] at number
    rw [isMantissa, Bool.or_eq_true]
    exact number.imp_right And.left
  refine List.forall_mem_cons.2 ⟨isPlain_of_isMantissa b first, fun c mem => ?_⟩
  rw [numberLength, List.take_add, List.mem_append] at mem
  rcases mem with inMantissa | inExponent
  · exact forall_mem_take_takeWhile isPlain_of_isMantissa rest c inMantissa
  · have others : (bytes "eE+-").all isPlain = true := by rfl
    exact forall_mem_exponent isPlain_of_isDigit (List.all_eq_true.1 others) _ c inExponent

/-- A token is a comment up to the end, a string, a name as long as it goes on, a sign of punctuation, or
has only plain bytes. -/
lemma scan_cases (b : UInt8) (rest : Bytes) :
    (b = Ascii.code '#' ∧ scan b rest = (.comment, rest.length)) ∨
      ((b = Ascii.doubleQuote || b = Ascii.singleQuote) = true ∧
        scan b rest = (.string, (scanString b rest).1)) ∨
      (startsName b = true ∧ ((scan b rest).1 = .name ∨ (scan b rest).1 = .keyword) ∧
        (scan b rest).2 = (rest.takeWhile continuesName).length) ∨
      (isPunctuation b = true ∧ scan b rest = (.punctuation, 0)) ∨
      ((scan b rest).1 ∈ [TokenKind.whitespace, .number, .operator, .error] ∧
        ∀ c ∈ b :: rest.take (scan b rest).2, isPlain c = true) := by
  by_cases blank : isBlank b = true
  · rw [scan_of_isBlank blank]
    exact .inr (.inr (.inr (.inr ⟨List.mem_cons_self, List.forall_mem_cons.2
      ⟨isPlain_of_isBlank b blank, forall_mem_take_takeWhile isPlain_of_isBlank rest⟩⟩)))
  by_cases hash : b = Ascii.code '#'
  · exact .inl ⟨hash, by rw [scan, if_neg blank, if_pos hash]⟩
  by_cases quote : (b = Ascii.doubleQuote || b = Ascii.singleQuote) = true
  · exact .inr (.inl ⟨quote, by rw [scan, if_neg blank, if_neg hash, if_pos quote]⟩)
  have notOpener : b ∉ openers := by
    simp only [isBlank, Bool.or_eq_true, beq_iff_eq, decide_eq_true_eq, not_or] at blank quote
    simp [openers, blank, hash, quote]
  rw [scan_of_notMem_openers notOpener]
  by_cases number : startsNumber b rest = true
  · rw [if_pos number]
    exact .inr (.inr (.inr (.inr ⟨by simp, isPlain_of_startsNumber number⟩)))
  rw [if_neg number]
  by_cases name : startsName b = true
  · rw [if_pos name]
    refine .inr (.inr (.inl ⟨name, ?_, rfl⟩))
    split
    · exact .inr rfl
    · exact .inl rfl
  rw [if_neg name]
  by_cases sign : isPunctuation b = true
  · rw [if_pos sign]
    exact .inr (.inr (.inr (.inl ⟨sign, rfl⟩)))
  rw [if_neg sign]
  have plain : isPlain b = true := by
    refine (isPlain_iff b).2 ⟨fun mark => ?_, lt_of_not_startsName name⟩
    have begins : marks.all (fun c =>
        c = Ascii.code '#' || ((c = Ascii.doubleQuote || c = Ascii.singleQuote) || isPunctuation c)) = true := by
      rfl
    have begins := List.all_eq_true.1 begins b mark
    rw [Bool.or_eq_true, Bool.or_eq_true, decide_eq_true_eq] at begins
    rcases begins with isHash | isQuote | isSign
    · exact hash isHash
    · exact quote isQuote
    · exact sign isSign
  refine .inr (.inr (.inr (.inr ?_)))
  by_cases double : doubleOperators.contains (b :: rest.take 1) = true
  · have doubles : doubleOperators.all (·.all isPlain) = true := by rfl
    have doubles := List.all_eq_true.1 doubles _ (List.contains_iff_mem.1 double)
    rw [if_pos double]
    exact ⟨by simp, List.all_eq_true.1 doubles⟩
  · rw [if_neg double]
    refine ⟨?_, List.forall_mem_singleton.2 plain⟩
    split <;> simp

/-- A mark stands in a comment or a string, or is a sign of punctuation. -/
lemma mark_cases (b : UInt8) (rest : Bytes) :
    (b = Ascii.code '#' ∧ scan b rest = (.comment, rest.length)) ∨
      ((b = Ascii.doubleQuote || b = Ascii.singleQuote) = true ∧
        scan b rest = (.string, (scanString b rest).1)) ∨
      (isPunctuation b = true ∧ scan b rest = (.punctuation, 0)) ∨
      (((scan b rest).1 ≠ .comment ∧ (scan b rest).1 ≠ .string ∧ (scan b rest).1 ≠ .punctuation) ∧
        ∀ c ∈ b :: rest.take (scan b rest).2, c ∉ marks) := by
  rcases scan_cases b rest with comment | string | ⟨starts, kind, length⟩ | sign | ⟨kind, plain⟩
  · exact .inl comment
  · exact .inr (.inl string)
  · refine .inr (.inr (.inr ⟨?_, List.forall_mem_cons.2 ⟨notMem_of_apply starts (by rfl), ?_⟩⟩))
    · rcases kind with kind | kind <;> rw [kind] <;> decide
    · rw [length]
      exact forall_mem_take_takeWhile notMem_marks_of_continuesName rest
  · exact .inr (.inr (.inl sign))
  · have others : ∀ kind ∈ [TokenKind.whitespace, .number, .operator, .error],
        kind ≠ .comment ∧ kind ≠ .string ∧ kind ≠ .punctuation := by decide
    exact .inr (.inr (.inr ⟨others _ kind, fun c mem => ((isPlain_iff c).1 (plain c mem)).1⟩))

/-! ### Names -/

def IsName (token : Token) : Prop := token.kind = .name ∨ token.kind = .keyword

/-- A name is all letters and digits, and goes on as long as there are any. -/
lemma exists_takeWhile_of_isName (mem : token ∈ lexFrom pos text) (name : token.IsName) :
    ∃ b rest, text.drop (token.pos - pos) = b :: rest ∧ startsName b = true ∧
      token.text = b :: rest.takeWhile continuesName := by
  obtain ⟨-, b, rest, place, kind, whole⟩ := exists_scan_of_mem_lexFrom mem
  rw [IsName, kind] at name
  rcases scan_cases b rest with ⟨-, scanned⟩ | ⟨-, scanned⟩ | ⟨starts, -, length⟩ | ⟨-, scanned⟩ | ⟨others, -⟩
  · rw [scanned] at name
    rcases name with kind | kind <;> cases kind
  · rw [scanned] at name
    rcases name with kind | kind <;> cases kind
  · rw [length, take_length_takeWhile] at whole
    exact ⟨b, rest, place, starts, whole⟩
  · rw [scanned] at name
    rcases name with kind | kind <;> cases kind
  · rcases name with kind | kind <;> rw [kind] at others <;> exact absurd others (by decide)

lemma continuesName_of_mem (mem : token ∈ lexFrom pos text) (name : token.IsName) :
    ∀ b ∈ token.text, continuesName b = true := by
  obtain ⟨b, rest, -, starts, whole⟩ := exists_takeWhile_of_isName mem name
  rw [whole]
  exact List.forall_mem_cons.2
    ⟨by rw [continuesName, starts, Bool.true_or], fun c mem => List.mem_takeWhile_imp mem⟩

lemma not_continuesName_behind (mem : token ∈ lexFrom pos text) (name : token.IsName) {c : UInt8}
    (behind : text[token.pos + token.text.length - pos]? = some c) : continuesName c = false := by
  obtain ⟨start, -⟩ := exists_scan_of_mem_lexFrom mem
  obtain ⟨b, rest, place, -, whole⟩ := exists_takeWhile_of_isName mem name
  have offset : token.pos + token.text.length - pos =
      token.pos - pos + ((rest.takeWhile continuesName).length + 1) := by
    rw [whole, List.length_cons]
    omega
  rw [offset, ← List.getElem?_drop, place, List.getElem?_cons_succ] at behind
  have stops := List.head?_dropWhile_not continuesName rest
  rw [← drop_length_takeWhile, List.head?_drop, behind] at stops
  exact stops

/-- Characters beyond ASCII stand in comments, strings and names only. -/
lemma kind_of_beyond_ascii (mem : token ∈ lexFrom pos text) {c : UInt8} (inText : c ∈ token.text)
    (beyond : 0x80 ≤ c) : token.kind = .comment ∨ token.kind = .string ∨ token.IsName := by
  obtain ⟨-, b, rest, -, kind, whole⟩ := exists_scan_of_mem_lexFrom mem
  rw [whole] at inText
  rcases scan_cases b rest with ⟨-, scanned⟩ | ⟨-, scanned⟩ | ⟨-, isName, -⟩ | ⟨sign, scanned⟩ | ⟨-, plain⟩
  · exact .inl (by rw [kind, scanned])
  · exact .inr (.inl (by rw [kind, scanned]))
  · exact .inr (.inr (by rwa [IsName, kind]))
  · rw [scanned, List.take_zero, List.mem_singleton] at inText
    subst inText
    have ascii : (bytes "()[]\x7b\x7d,:.;").all (· < 0x80) = true := by rfl
    have ascii := List.all_eq_true.1 ascii c (List.contains_iff_mem.1 sign)
    exact absurd beyond (UInt8.not_le.2 (of_decide_eq_true ascii))
  · exact absurd beyond (UInt8.not_le.2 ((isPlain_iff c).1 (plain c inText)).2)

/-! ### Comments and strings -/

/-- A token with all the text from its place on stands at every place behind. -/
lemma covers_of_text_eq_drop (whole : token.text = text.drop (token.pos - pos)) (start : pos ≤ token.pos)
    (low : token.pos ≤ i) (high : i < pos + text.length) : token.Covers i := by
  refine ⟨low, ?_⟩
  rw [whole, List.length_drop]
  omega

lemma covers_of_comment (mem : token ∈ lexFrom pos text) (comment : token.kind = .comment)
    (low : token.pos ≤ i) (high : i < pos + text.length) : token.Covers i := by
  obtain ⟨start, b, rest, place, kind, whole⟩ := exists_scan_of_mem_lexFrom mem
  have reaches : (scan b rest).2 = rest.length := by
    rw [scan_of_comment (kind.symm.trans comment)]
  rw [reaches, List.take_length, ← place] at whole
  exact covers_of_text_eq_drop whole start low high

/-- A line has one comment at most. -/
lemma eq_of_comment (mem : token ∈ lexFrom pos text) (otherMem : other ∈ lexFrom pos text)
    (comment : token.kind = .comment) (otherComment : other.kind = .comment) : token = other := by
  have within {t : Token} (mem : t ∈ lexFrom pos text) : t.pos < pos + text.length := by
    obtain ⟨start, b, rest, place, -⟩ := exists_scan_of_mem_lexFrom mem
    have length := congrArg List.length place
    rw [List.length_drop, List.length_cons] at length
    omega
  have high := max_lt (within mem) (within otherMem)
  exact eq_of_covers mem otherMem (covers_of_comment mem comment (le_max_left _ _) high)
    (covers_of_comment otherMem otherComment (le_max_right _ _) high)

/-- A string token is its opening quote and what the search for the closing one goes over. -/
lemma exists_scanString_of_mem_lexFrom (mem : token ∈ lexFrom pos text) (isString : token.kind = .string) :
    ∃ quote rest, text.drop (token.pos - pos) = quote :: rest ∧
      (quote = Ascii.doubleQuote || quote = Ascii.singleQuote) = true ∧
      scan quote rest = (.string, (scanString quote rest).1) ∧
      token.text = quote :: rest.take (scanString quote rest).1 := by
  obtain ⟨-, b, rest, place, kind, whole⟩ := exists_scan_of_mem_lexFrom mem
  rw [isString] at kind
  rcases mark_cases b rest with ⟨-, scanned⟩ | ⟨quote, scanned⟩ | ⟨-, scanned⟩ | ⟨other, -⟩
  · rw [scanned] at kind
    cases kind
  · rw [scanned] at whole
    exact ⟨b, rest, place, quote, scanned, whole⟩
  · rw [scanned] at kind
    cases kind
  · exact absurd kind.symm other.2.1

/-- A string does not end where there is no quote. -/
lemma covers_of_string (mem : token ∈ lexFrom pos text) (isString : token.kind = .string) {j : Nat}
    (covers : token.Covers i) (low : i ≤ j) (high : j < pos + text.length)
    (unmarked : ∀ k c, i ≤ k → k < j → text[k - pos]? = some c → c ∉ marks) : token.Covers j := by
  obtain ⟨start, -⟩ := exists_scan_of_mem_lexFrom mem
  obtain ⟨b, rest, place, quote, -, whole⟩ := exists_scanString_of_mem_lexFrom mem isString
  rcases scanString_ends b rest with all | ⟨inner, ends⟩
  · rw [List.take_of_length_le (List.drop_eq_nil_iff.1 all), ← place] at whole
    exact covers_of_text_eq_drop whole start (covers.1.trans low) high
  · refine ⟨covers.1.trans low, Nat.lt_of_not_le fun ended => ?_⟩
    -- The closing quote would be one of the bytes that are no marks.
    rw [ends] at whole
    have length : token.text.length = inner.length + 2 := by
      rw [whole, List.length_cons, List.length_append, List.length_singleton]
    have inside := covers.2
    have read := getElem?_text (i := token.pos + (inner.length + 1)) mem ⟨Nat.le_add_right _ _, by omega⟩
    rw [Nat.add_sub_cancel_left, whole, List.getElem?_cons_succ, List.getElem?_concat_length] at read
    refine unmarked _ b (by omega) (by omega) read.symm ?_
    rw [Bool.or_eq_true, decide_eq_true_eq, decide_eq_true_eq] at quote
    rcases quote with rfl | rfl <;> decide

end CalcShell.Calc.Token
