import CalcShell.Proofs.Completion.OpenString

/-! The call at the cursor. The scan for open brackets passes over strings as the lexer does, but knows
nothing of comments: it reads on behind a comment sign, and what stands there opens, closes and parts calls
as if it were code. -/
namespace CalcShell.Completion

open Calc (Token)

/-! ### Brackets by tokens -/

/-- The brackets that are open behind a token. -/
def passToken (stack : List OpenBracket) (token : Token) : List OpenBracket :=
  if token.isOpening then
    { isRound := token.is .punctuation "(", pos := token.pos, argument := token.pos + 1 } :: stack
  else if token.isClosing then stack.tail
  else if token.is .punctuation "," then countComma (token.pos + 1) stack
  else stack

/-- The brackets that the signs of punctuation in a text leave open. -/
def tokenBrackets (text : Bytes) : List OpenBracket := (Token.lex text).foldl passToken []

lemma passToken_of_kind {token : Token} (other : token.kind ≠ .punctuation) (stack : List OpenBracket) :
    passToken stack token = stack := by
  simp [passToken, Token.isOpening, Token.isClosing, Token.is, other]

/-- A sign of punctuation does as a token what it does as a byte. -/
lemma bracketStep_eq_passToken (stack : List OpenBracket) (b : UInt8) (pos : Nat) :
    bracketStep pos b stack = some (passToken stack { kind := .punctuation, text := [b], pos }) := by
  have spelled (c : UInt8) : ([c] == [b]) = (b == c) := by
    rw [Bool.eq_iff_iff, beq_iff_eq, beq_iff_eq, List.singleton_inj, eq_comm]
  have single (c : UInt8) : ([b] == [c]) = (b == c) := by
    rw [Bool.eq_iff_iff, beq_iff_eq, beq_iff_eq, List.singleton_inj]
  have opens : Token.isOpening { kind := .punctuation, text := [b], pos } = (bytes "([\x7b").contains b := by
    change (true && ([0x28] == [b] || ([0x5B] == [b] || ([0x7B] == [b] || false)))) = _
    rw [spelled, spelled, spelled]
    rfl
  have closes : Token.isClosing { kind := .punctuation, text := [b], pos } = (bytes ")]\x7d").contains b := by
    change (true && ([0x29] == [b] || ([0x5D] == [b] || ([0x7D] == [b] || false)))) = _
    rw [spelled, spelled, spelled]
    rfl
  have round : Token.is { kind := .punctuation, text := [b], pos } .punctuation "(" = (b == Ascii.code '(') :=
    single _
  have comma : Token.is { kind := .punctuation, text := [b], pos } .punctuation "," = (b == Ascii.code ',') :=
    single _
  rw [bracketStep, passToken, opens, closes, round, comma]
  simp only [beq_iff_eq]
  split_ifs <;> rfl

/-! ### Brackets by bytes -/

lemma openBrackets_of_quote {b : UInt8} (quote : isQuote b = true) (i : Nat) (stack : List OpenBracket)
    (rest : Bytes) :
    openBrackets i stack (b :: rest) =
      openBrackets (i + 1 + (Token.scanString b rest).1) stack (rest.drop (Token.scanString b rest).1) := by
  rw [openBrackets]
  exact if_pos quote

lemma openBrackets_of_step {b : UInt8} (other : ¬isQuote b = true) {i : Nat} {stack next : List OpenBracket}
    (steps : bracketStep i b stack = some next) (rest : Bytes) :
    openBrackets i stack (b :: rest) = openBrackets (i + 1) next rest := by
  rw [openBrackets]
  refine (if_neg other).trans ?_
  rw [bracketStep] at steps
  split_ifs at steps ⊢ <;> cases steps <;> rfl

lemma bracketStep_of_notMem_marks {b : UInt8} (unmarked : b ∉ Token.marks) (i : Nat)
    (stack : List OpenBracket) : bracketStep i b stack = some stack := by
  have other (signs : Bytes) (all : signs.all Token.marks.contains = true) : ¬signs.contains b = true :=
    fun sign => unmarked
      (List.contains_iff_mem.1 (List.all_eq_true.1 all b (List.contains_iff_mem.1 sign)))
  have noComma : ¬b = Ascii.code ',' := fun same => other [Ascii.code ','] rfl (by simp [same])
  rw [bracketStep, if_neg (other _ rfl), if_neg (other _ rfl), if_neg noComma]

/-- Bytes without marks, and comment signs, open and close nothing. -/
lemma openBrackets_append {front : Bytes} (plain : ∀ b ∈ front, b = Ascii.code '#' ∨ b ∉ Token.marks) (i : Nat)
    (stack : List OpenBracket) (back : Bytes) :
    openBrackets i stack (front ++ back) = openBrackets (i + front.length) stack back := by
  induction front generalizing i with
  | nil => rfl
  | cons b front ih =>
    obtain ⟨first, others⟩ := List.forall_mem_cons.1 plain
    have passed : ¬isQuote b = true ∧ bracketStep i b stack = some stack := by
      rcases first with rfl | unmarked
      · exact ⟨by decide, rfl⟩
      · exact ⟨(plain_of_notMem_marks unmarked).2, bracketStep_of_notMem_marks unmarked i stack⟩
    rw [List.cons_append, openBrackets_of_step passed.1 passed.2, ih others, List.length_cons]
    congr 1
    omega

/-! ### Both ways -/

/-- The scan leaves the brackets open that the tokens leave open. Behind a comment sign it goes on as if
there were none. -/
lemma openBrackets_eq_foldl (pos : Nat) (stack : List OpenBracket) (text : Bytes) :
    openBrackets pos stack text =
      match (Token.lexFrom pos text).find? (·.kind == .comment) with
      | none => (Token.lexFrom pos text).foldl passToken stack
      | some comment =>
        openBrackets (comment.pos + 1) ((Token.lexFrom pos text).foldl passToken stack) comment.text.tail := by
  induction text using Token.token_induction generalizing pos stack with
  | nil =>
    rw [openBrackets, Token.lexFrom_nil]
    rfl
  | cons b rest ih =>
    have passed (noComment : (Token.scan b rest).1 ≠ .comment)
        (first : openBrackets pos stack (b :: rest) =
          openBrackets (pos + 1 + (Token.scan b rest).2)
            (passToken stack
              { kind := (Token.scan b rest).1, text := b :: rest.take (Token.scan b rest).2, pos })
            (rest.drop (Token.scan b rest).2)) :
        openBrackets pos stack (b :: rest) =
          match (Token.lexFrom pos (b :: rest)).find? (·.kind == .comment) with
          | none => (Token.lexFrom pos (b :: rest)).foldl passToken stack
          | some comment =>
            openBrackets (comment.pos + 1) ((Token.lexFrom pos (b :: rest)).foldl passToken stack)
              comment.text.tail := by
      rw [first, ih, Token.lexFrom_cons, List.find?_cons_of_neg (by simpa using noComment), List.foldl_cons]
    rcases Token.mark_cases b rest with ⟨rfl, scanned⟩ | ⟨quote, scanned⟩ | ⟨sign, scanned⟩ | ⟨other, unmarked⟩
    · rw [Token.lexFrom_cons, scanned, List.drop_length, Token.lexFrom_nil, List.take_length,
        List.find?_cons_of_pos rfl, List.foldl_cons, List.foldl_nil, passToken_of_kind (by simp)]
      exact openBrackets_of_step (by decide) rfl rest
    · rw [scanned] at passed
      refine passed (by simp) ?_
      rw [passToken_of_kind (by simp), openBrackets_of_quote quote]
    · rw [scanned] at passed
      exact passed (by simp)
        (openBrackets_of_step (plain_of_isPunctuation sign).2 (bracketStep_eq_passToken stack b pos) rest)
    · have split : b :: rest = (b :: rest.take (Token.scan b rest).2) ++ rest.drop (Token.scan b rest).2 := by
        rw [List.cons_append, List.take_append_drop]
      have skipped := openBrackets_append (fun c mem => .inr (unmarked c mem)) pos stack
        (rest.drop (Token.scan b rest).2)
      rw [← split, Token.length_text_scan, ← Nat.add_assoc] at skipped
      refine passed other.1 ?_
      rw [passToken_of_kind other.2.2]
      exact skipped

lemma openBrackets_of_noComment {text : Bytes} (none : ∀ token ∈ Token.lex text, token.kind ≠ .comment) :
    openBrackets 0 [] text = tokenBrackets text := by
  have missing : (Token.lexFrom 0 text).find? (·.kind == .comment) = Option.none :=
    List.find?_eq_none.2 fun token mem => by simpa using none token mem
  rw [openBrackets_eq_foldl, missing, tokenBrackets, Token.lex]

lemma openBrackets_of_comment {text : Bytes} {comment : Token} (mem : comment ∈ Token.lex text)
    (isComment : comment.kind = .comment) :
    openBrackets 0 [] text = openBrackets (comment.pos + 1) (tokenBrackets text) comment.text.tail := by
  rw [openBrackets_eq_foldl]
  cases found : (Token.lexFrom 0 text).find? (·.kind == .comment) with
  | none =>
    have other := List.find?_eq_none.1 found comment mem
    exact absurd isComment (by simpa using other)
  | some first =>
    have isFirst : first.kind = .comment := by simpa using List.find?_some found
    rw [Token.eq_of_comment mem (List.mem_of_find?_eq_some found) isComment isFirst]
    rfl

/-! ### The call -/

/-- The innermost call among the brackets that a text leaves open. -/
def callIn? (text : Bytes) (stack : List OpenBracket) : Option CallContext := do
  let bracket ← stack.find? (·.isRound)
  let callee ← calleeBefore? (text.take bracket.pos)
  let isInnermost := stack.head?.any (·.pos == bracket.pos)
  some
    { callee
      argIndex := bracket.commas
      keyword := if isInnermost then keywordOf (text.drop bracket.argument) else [] }

lemma of_callIn? {text : Bytes} {stack : List OpenBracket} {context : CallContext}
    (found : callIn? text stack = some context) :
    ∃ bracket, stack.find? (·.isRound) = some bracket ∧
      calleeBefore? (text.take bracket.pos) = some context.callee := by
  rw [callIn?, Option.bind_eq_bind, Option.bind_eq_some_iff] at found
  obtain ⟨bracket, isBracket, found⟩ := found
  rw [Option.bind_eq_bind, Option.bind_eq_some_iff] at found
  obtain ⟨callee, isCallee, found⟩ := found
  cases found
  exact ⟨bracket, isBracket, isCallee⟩

lemma callContext?_eq_callIn? (text : Bytes) : callContext? text = callIn? text (openBrackets 0 [] text) := rfl

/-- The call at the end of a text is found by a scan that goes over the text once and knows the quote of the
literal that it is in and the open brackets. It is the call that the signs of punctuation tell exactly if
reading the comment of the text as code leads to the same call, and so whenever there is no comment, or
none with a quote, a bracket or a comma in it. -/
theorem callContext?_eq_iff (text : Bytes) :
    let told := callIn? text (tokenBrackets text)
    callContext? text = (scanBytes bracketStep none 0 [] text).bind (fun found => callIn? text found.2) ∧
      (callContext? text = told ↔
        ∀ comment ∈ Token.lex text, comment.kind = .comment →
          callIn? text (openBrackets (comment.pos + 1) (tokenBrackets text) comment.text.tail) = told) ∧
      ((∀ comment ∈ Token.lex text, comment.kind = .comment →
          ∀ b ∈ comment.text.tail, b = Ascii.code '#' ∨ b ∉ Token.marks) →
        callContext? text = told) := by
  intro told
  have same_iff : callContext? text = told ↔
      ∀ comment ∈ Token.lex text, comment.kind = .comment →
        callIn? text (openBrackets (comment.pos + 1) (tokenBrackets text) comment.text.tail) = told := by
    rw [callContext?_eq_callIn?]
    constructor
    · intro same comment mem isComment
      rw [← openBrackets_of_comment mem isComment]
      exact same
    · intro readOn
      by_cases some : ∃ comment ∈ Token.lex text, comment.kind = .comment
      · obtain ⟨comment, mem, isComment⟩ := some
        rw [openBrackets_of_comment mem isComment]
        exact readOn comment mem isComment
      · rw [openBrackets_of_noComment fun token mem isComment => some ⟨token, mem, isComment⟩]
  refine ⟨?_, same_iff, fun plain => same_iff.2 fun comment mem isComment => ?_⟩
  · have scanned := openBrackets_eq_scanBytes 0 [] text
    obtain ⟨found, scan, brackets⟩ := Option.map_eq_some_iff.1 scanned
    rw [scan, Option.bind_some, brackets, callContext?_eq_callIn?]
  · have passed := openBrackets_append (plain comment mem isComment) (comment.pos + 1) (tokenBrackets text) []
    rw [List.append_nil, openBrackets] at passed
    rw [passed]

/-- Brackets and commas in strings count for nothing, nor does the comment, which has none. -/
theorem callContext?_behind_string :
    let text := bytes "f('a, b(', pad=1 # two"
    callContext? text = callIn? text (tokenBrackets text) ∧
      callContext? text = some { callee := bytes "f", argIndex := 1, keyword := bytes "pad" } := by
  intro text
  have told : callIn? text (tokenBrackets text) =
      some { callee := bytes "f", argIndex := 1, keyword := bytes "pad" } := by decide +kernel
  obtain ⟨-, -, harmless⟩ := callContext?_eq_iff text
  have same := harmless (by decide +kernel)
  exact ⟨same, same.trans told⟩

/-- The bracket in the comment opens a call. -/
theorem comment_opens_call :
    let text := bytes "f(1 # g("
    callContext? text = some { callee := bytes "g", argIndex := 0 } ∧
      callIn? text (tokenBrackets text) = some { callee := bytes "f", argIndex := 0 } := by
  decide +kernel

end CalcShell.Completion
