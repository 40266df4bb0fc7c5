import CalcShell.Proofs.Completion.OpenCall
import CalcShell.Proofs.Completion.Words

/-! The names that completion works on. The word at the cursor and the callee of the open call are found
backwards over ASCII letters and digits, while the lexer takes all characters beyond ASCII for letters, so
either can be what is left of a name behind such a character. -/
namespace CalcShell.Completion

open Calc (Token)

/-! ### The word at the cursor -/

lemma isNameByte_of_continuesName {b : UInt8} (continues : Token.continuesName b = true) (ascii : b < 0x80) :
    isNameByte b = true := by
  have noBeyond : decide ((0x80 : UInt8) ≤ b) = false := decide_eq_false (UInt8.not_le.2 ascii)
  rw [Token.continuesName, Token.startsName, noBeyond, Bool.or_false, Bool.or_right_comm] at continues
  rw [isNameByte, Ascii.isAlphanumeric, continues, Bool.true_or]

/-- The last token is what the text ends in. -/
lemma suffix_of_getLast?_lex {text : Bytes} {token : Token} (last : (Token.lex text).getLast? = some token) :
    token.text <:+ text := by
  obtain ⟨front, tokens⟩ := List.getLast?_eq_some_iff.1 last
  have whole := Token.flatMap_text_lex text
  rw [tokens, List.flatMap_append, List.flatMap_singleton] at whole
  exact ⟨_, whole⟩

/-- The whole of a name is in the word at the cursor if it is all ASCII. -/
lemma exists_currentWord?_iff {line : InputLine} (atEnd : line.atEnd = true) {token : Token}
    (last : (Token.lex line.before).getLast? = some token) (name : token.IsName) :
    (∃ word, line.currentWord? = some word ∧ token.text <:+ word) ↔ ∀ b ∈ token.text, b < 0x80 := by
  have mem : token ∈ Token.lex line.before := List.mem_of_getLast? last
  constructor
  · rintro ⟨word, found, ends⟩ b inToken
    exact (of_isNameByte (isNameByte_of_currentWord? found b (ends.subset inToken))).1
  · intro ascii
    obtain ⟨base, whole⟩ := suffix_of_getLast?_lex last
    have wordBytes : ∀ b ∈ token.text.reverse, InputLine.isWordByte b = true := fun b inToken => by
      have inToken := List.mem_reverse.1 inToken
      rw [isWordByte_eq_isNameByte]
      exact isNameByte_of_continuesName (Token.continuesName_of_mem mem name b inToken) (ascii b inToken)
    have word : (line.before.reverse.takeWhile InputLine.isWordByte).reverse =
        (base.reverse.takeWhile InputLine.isWordByte).reverse ++ token.text := by
      rw [← whole, List.reverse_append, List.takeWhile_append_of_pos wordBytes, List.reverse_append,
        List.reverse_reverse]
    obtain ⟨b, rest, -, -, some⟩ := Token.exists_takeWhile_of_isName mem name
    refine ⟨(base.reverse.takeWhile InputLine.isWordByte).reverse ++ token.text, ?_, List.suffix_append _ _⟩
    rw [InputLine.currentWord?, word, atEnd, some]
    exact if_pos (by simp)

/-! ### Where brackets stand -/

def places (stack : List OpenBracket) : List Nat := stack.map (·.pos)

lemma places_countComma (next : Nat) (stack : List OpenBracket) :
    places (countComma next stack) = places stack := by
  cases stack <;> rfl

lemma places_tail (stack : List OpenBracket) : places stack.tail = (places stack).tail := List.map_tail

section

variable {p i : Nat} {stack : List OpenBracket} {text : Bytes}

/-- A token leaves the brackets where they are, and one that it opens stands where the token does. -/
lemma of_mem_places_passToken {token : Token} (mem : p ∈ places (passToken stack token)) :
    p ∈ places stack ∨ (token.kind = .punctuation ∧ token.pos = p) := by
  by_cases sign : token.kind = .punctuation
  · unfold passToken at mem
    split at mem
    · rcases List.mem_cons.1 mem with rfl | mem
      · exact .inr ⟨sign, rfl⟩
      · exact .inl mem
    · split at mem
      · rw [places_tail] at mem
        exact .inl (List.mem_of_mem_tail mem)
      · split at mem
        · rw [places_countComma] at mem
          exact .inl mem
        · exact .inl mem
  · rw [passToken_of_kind sign] at mem
    exact .inl mem

lemma of_mem_places_foldl {tokens : List Token} (mem : p ∈ places (tokens.foldl passToken stack)) :
    p ∈ places stack ∨ ∃ token ∈ tokens, token.kind = .punctuation ∧ token.pos = p := by
  induction tokens generalizing stack with
  | nil => exact .inl mem
  | cons first tokens ih =>
    rcases ih mem with inStack | ⟨token, inTokens, stands⟩
    · exact (of_mem_places_passToken inStack).imp_right fun stands => ⟨first, List.mem_cons_self, stands⟩
    · exact .inr ⟨token, List.mem_cons_of_mem _ inTokens, stands⟩

/-- The brackets that a text opens stand in it. -/
lemma of_mem_places_openBrackets (mem : p ∈ places (openBrackets i stack text)) :
    p ∈ places stack ∨ (i ≤ p ∧ p < i + text.length) := by
  fun_induction openBrackets i stack text with
  | case1 i stack => exact .inl mem
  | case2 i stack b rest quote n ih =>
    have within : n ≤ rest.length := Token.scanString_le b rest
    have stands := ih mem
    rw [List.length_drop] at stands
    rw [List.length_cons]
    exact stands.imp_right fun stands => by omega
  | case3 i stack b rest plain opens ih =>
    rw [List.length_cons]
    rcases ih mem with inStack | stands
    · rcases List.mem_cons.1 inStack with rfl | inStack
      · exact .inr (by omega)
      · exact .inl inStack
    · exact .inr (by omega)
  | case4 i stack b rest plain notOpen closes ih =>
    have stands := ih mem
    rw [places_tail] at stands
    rw [List.length_cons]
    exact stands.imp List.mem_of_mem_tail fun stands => by omega
  | case5 i stack rest plain notOpen notClose ih =>
    have stands := ih mem
    rw [places_countComma] at stands
    rw [List.length_cons]
    exact stands.imp_right fun stands => by omega
  | case6 i stack b rest plain notOpen notClose noComma ih =>
    rw [List.length_cons]
    exact (ih mem).imp_right fun stands => by omega

/-- A bracket that is found open is a sign of punctuation or stands in the comment, never in a string. -/
lemma exists_covers_of_mem_places (mem : p ∈ places (openBrackets 0 [] text)) :
    ∃ token ∈ Token.lex text, token.Covers p ∧ (token.kind = .punctuation ∨ token.kind = .comment) := by
  have of_tokens (mem : p ∈ places (tokenBrackets text)) :
      ∃ token ∈ Token.lex text, token.Covers p ∧ (token.kind = .punctuation ∨ token.kind = .comment) := by
    rcases of_mem_places_foldl mem with inEmpty | ⟨token, inTokens, sign, rfl⟩
    · cases inEmpty
    · exact ⟨token, inTokens, Token.covers_pos inTokens, .inl sign⟩
  by_cases some : ∃ comment ∈ Token.lex text, comment.kind = .comment
  · obtain ⟨comment, inTokens, isComment⟩ := some
    rw [openBrackets_of_comment inTokens isComment] at mem
    rcases of_mem_places_openBrackets mem with inStack | ⟨low, high⟩
    · exact of_tokens inStack
    · rw [List.length_tail] at high
      exact ⟨comment, inTokens, ⟨by omega, by omega⟩, .inr isComment⟩
  · rw [openBrackets_of_noComment fun token mem isComment => some ⟨token, mem, isComment⟩] at mem
    exact of_tokens mem

end

/-! ### The callee -/

/-- The place where the callee in front of a bracket begins. -/
def calleePlace? (text : Bytes) : Option Nat :=
  ((openBrackets 0 [] text).find? (·.isRound)).map fun bracket =>
    (((text.take bracket.pos).reverse.dropWhile (· == Ascii.space)).dropWhile isNameByte).length

/-- A name begins in front of a place and goes on behind it. -/
def InsideName (text : Bytes) (p : Nat) : Prop :=
  ∃ token ∈ Token.lex text, token.IsName ∧ token.pos < p ∧ p < token.pos + token.text.length

/-- The bytes at the end of a text as far as they are of one kind. -/
lemma exists_split_behind (p : UInt8 → Bool) (text : Bytes) :
    ∃ front, text = front ++ (text.reverse.takeWhile p).reverse ∧ front.reverse = text.reverse.dropWhile p ∧
      (∀ b ∈ (text.reverse.takeWhile p).reverse, p b = true) ∧ ∀ b, front.getLast? = some b → p b = false := by
  have parts : text.reverse.takeWhile p ++ text.reverse.dropWhile p = text.reverse :=
    List.takeWhile_append_dropWhile
  refine ⟨(text.reverse.dropWhile p).reverse, ?_, List.reverse_reverse _, fun b mem => ?_, fun b last => ?_⟩
  · rw [← List.reverse_append, parts, List.reverse_reverse]
  · exact List.mem_takeWhile_imp (List.mem_reverse.1 mem)
  · rw [List.getLast?_reverse] at last
    have stops := List.head?_dropWhile_not p text.reverse
    rw [last] at stops
    exact stops

lemma startsName_of_isNameByte {b : UInt8} (name : isNameByte b = true)
    (begins : ¬(Ascii.isDigit b || b == Ascii.code '.') = true) : Token.startsName b = true := by
  rw [Bool.or_eq_true, not_or, Bool.not_eq_true, Bool.not_eq_true] at begins
  rw [isNameByte, Ascii.isAlphanumeric, begins.1, begins.2, Bool.or_false, Bool.or_false] at name
  rw [Token.startsName, name, Bool.true_or]

/-- A text ends in a callee and the spaces behind it. The callee is made of the bytes of names, goes back as
far as there are any, and begins as a name does. -/
structure EndsInCallee (left front callee gap : Bytes) : Prop where
  whole : left = front ++ (callee ++ gap)
  name : ∀ b ∈ callee, isNameByte b = true
  spaces : ∀ b ∈ gap, b = Ascii.space
  begins : ∃ first rest, callee = first :: rest ∧ Token.startsName first = true
  stops : ∀ b, front.getLast? = some b → isNameByte b = false

lemma endsInCallee_of_calleeBefore? {left callee : Bytes} (found : calleeBefore? left = some callee) :
    ∃ front gap, EndsInCallee left front callee gap ∧
      ((left.reverse.dropWhile (· == Ascii.space)).dropWhile isNameByte).length = front.length := by
  obtain ⟨behind, whole, behind_eq, spaces, -⟩ := exists_split_behind (· == Ascii.space) left
  obtain ⟨front, parts, front_eq, name, stops⟩ := exists_split_behind isNameByte behind
  unfold calleeBefore? at found
  rw [← behind_eq] at found ⊢
  dsimp only at found
  split at found
  · cases found
  · rename_i b rest first
    split at found
    · cases found
    · rename_i plain
      cases found
      have starts := startsName_of_isNameByte (name b (by rw [first]; exact List.mem_cons_self)) plain
      refine ⟨front, _, ⟨?_, name, fun c mem => beq_iff_eq.1 (spaces c mem), ⟨b, rest, first, starts⟩, stops⟩, ?_⟩
      · rw [← List.append_assoc, ← parts, ← whole]
      · rw [← front_eq, List.length_reverse]

lemma startsName_of_le {b : UInt8} (beyond : 0x80 ≤ b) : Token.startsName b = true := by
  rw [Token.startsName, decide_eq_true beyond, Bool.or_true]

namespace EndsInCallee

variable {text front callee gap : Bytes} {bracket : OpenBracket} {b : UInt8}

lemma split (ends : EndsInCallee (text.take bracket.pos) front callee gap) :
    text = front ++ (callee ++ (gap ++ text.drop bracket.pos)) := by
  rw [← List.append_assoc callee, ← List.append_assoc front, ← ends.whole, List.take_append_drop]

lemma getElem?_last (ends : EndsInCallee (text.take bracket.pos) front callee gap) (some : 0 < front.length) :
    text[front.length - 1]? = front.getLast? := by
  rw [ends.split, List.getElem?_append_left (by omega), List.getLast?_eq_getElem?]

lemma exists_startsName (ends : EndsInCallee (text.take bracket.pos) front callee gap) :
    ∃ first, text[front.length]? = some first ∧ Token.startsName first = true := by
  obtain ⟨first, rest, begins, starts⟩ := ends.begins
  refine ⟨first, ?_, starts⟩
  rw [ends.split, List.getElem?_append_right (Nat.le_refl _), Nat.sub_self, begins]
  rfl

/-- A string that a character beyond ASCII in front of the callee stands in would have the bracket in it. -/
lemma kind_ne_string (ends : EndsInCallee (text.take bracket.pos) front callee gap)
    (mem : bracket ∈ openBrackets 0 [] text) (last : front.getLast? = some b) (beyond : 0x80 ≤ b)
    {token : Token} (inTokens : token ∈ Token.lex text) (covers : token.Covers (front.length - 1)) :
    token.kind ≠ .string := by
  intro isString
  obtain ⟨sign, signMem, covered, kind⟩ := exists_covers_of_mem_places (List.mem_map_of_mem mem)
  have within := Token.lt_length_of_covers signMem covered
  have length := congrArg List.length ends.whole
  rw [List.length_take_of_le (by omega), List.length_append] at length
  have unmarked : ∀ k c, front.length - 1 ≤ k → k < bracket.pos → text[k - 0]? = some c → c ∉ Token.marks := by
    intro k c low high read
    rw [Nat.sub_zero, ← List.getElem?_take_of_lt high, ends.whole] at read
    rcases Nat.lt_or_ge k front.length with inFront | behind
    · obtain rfl : k = front.length - 1 := by omega
      rw [List.getElem?_append_left inFront, ← List.getLast?_eq_getElem?, last] at read
      cases read
      exact Token.notMem_of_apply (startsName_of_le beyond) (by rfl)
    · rw [List.getElem?_append_right behind] at read
      rcases List.mem_append.1 (List.mem_of_getElem? read) with inCallee | inGap
      · exact Token.notMem_of_apply (ends.name c inCallee) (by rfl)
      · rw [ends.spaces c inGap]
        exact Token.notMem_of_apply (p := (· == Ascii.space)) rfl (by rfl)
  have reaches := Token.covers_of_string inTokens isString covers (by omega) within unmarked
  rw [Token.eq_of_covers inTokens signMem reaches covered] at isString
  rcases kind with kind | kind <;> rw [kind] at isString <;> cases isString

/-- The byte of a name that the scan for the callee stops at is beyond ASCII. -/
lemma beyond_of_insideName (ends : EndsInCallee (text.take bracket.pos) front callee gap)
    (inside : InsideName text front.length) : front.getLast?.any (0x80 ≤ ·) = true := by
  obtain ⟨token, inTokens, isName, low, high⟩ := inside
  obtain ⟨b, inText, read⟩ := Token.exists_mem_text (i := front.length - 1) inTokens ⟨by omega, by omega⟩
  rw [Nat.sub_zero, ends.getElem?_last (by omega)] at read
  have stops := ends.stops b read
  rw [read, Option.any_some, decide_eq_true_eq, ← UInt8.not_lt]
  intro ascii
  have continues := Token.continuesName_of_mem inTokens isName b inText
  rw [isNameByte_of_continuesName continues ascii] at stops
  cases stops

/-- A character beyond ASCII in front of the callee, but not in a comment, is part of a name that goes on
with the callee. -/
lemma insideName_of_beyond (ends : EndsInCallee (text.take bracket.pos) front callee gap)
    (mem : bracket ∈ openBrackets 0 [] text) (last : front.getLast? = some b) (beyond : 0x80 ≤ b)
    (outside : ∀ comment ∈ Token.lex text, comment.kind = .comment → front.length ≤ comment.pos) :
    InsideName text front.length := by
  obtain ⟨first, atPlace, starts⟩ := ends.exists_startsName
  have within : front.length < text.length := (List.getElem?_eq_some_iff.1 atPlace).1
  have some : 0 < front.length := List.length_pos_iff.2 fun none => by simp [none] at last
  obtain ⟨token, inTokens, covers⟩ :=
    @Token.exists_covers 0 (front.length - 1) text (Nat.zero_le _) (by omega)
  obtain ⟨c, inText, read⟩ := Token.exists_mem_text inTokens covers
  rw [Nat.sub_zero, ends.getElem?_last some, last] at read
  cases read
  obtain ⟨low, high⟩ := covers
  rcases Token.kind_of_beyond_ascii inTokens inText beyond with isComment | isString | isName
  · have := outside token inTokens isComment
    omega
  · exact absurd isString (ends.kind_ne_string mem last beyond inTokens ⟨low, high⟩)
  · refine ⟨token, inTokens, isName, by omega, Nat.lt_of_not_le fun ended => ?_⟩
    -- The name would end in front of the callee, which goes on with a letter.
    have goesOn := Token.not_continuesName_behind inTokens isName (c := first)
      (by rw [← atPlace, Nat.sub_zero]; congr 1; omega)
    rw [Token.continuesName, starts, Bool.true_or] at goesOn
    cases goesOn

/-- The callee begins inside of a name exactly if a character beyond ASCII stands in front of it, unless that
is in a comment. -/
lemma insideName_iff (ends : EndsInCallee (text.take bracket.pos) front callee gap)
    (mem : bracket ∈ openBrackets 0 [] text) :
    InsideName text front.length ↔
      front.getLast?.any (0x80 ≤ ·) = true ∧
        ∀ comment ∈ Token.lex text, comment.kind = .comment → front.length ≤ comment.pos := by
  constructor
  · intro inside
    refine ⟨ends.beyond_of_insideName inside, fun comment commentMem isComment => ?_⟩
    obtain ⟨token, inTokens, isName, low, high⟩ := inside
    refine Nat.le_of_not_lt fun behind => ?_
    have covers : token.Covers front.length := ⟨by omega, high⟩
    have within := Token.lt_length_of_covers inTokens covers
    have both := Token.covers_of_comment commentMem isComment (by omega) within
    rw [Token.IsName, Token.eq_of_covers inTokens commentMem covers both, isComment] at isName
    rcases isName with kind | kind <;> cases kind
  · rintro ⟨beyond, outside⟩
    cases last : front.getLast? with
    | none =>
      rw [last] at beyond
      cases beyond
    | some b =>
      rw [last, Option.any_some, decide_eq_true_eq] at beyond
      exact ends.insideName_of_beyond mem last beyond outside

end EndsInCallee

/-- Of a name that the line ends in, all is in the word at the cursor exactly if the name is all ASCII, and the
callee of the call at the cursor begins inside of a name exactly if a character beyond ASCII stands in front of
it, unless the call is in a comment. -/
theorem whole_names_iff (line : InputLine) :
    (∀ token, line.atEnd = true → (Token.lex line.before).getLast? = some token → token.IsName →
        ((∃ word, line.currentWord? = some word ∧ token.text <:+ word) ↔ ∀ b ∈ token.text, b < 0x80)) ∧
      ∀ context, callContext? line.before = some context →
        ∃ p, calleePlace? line.before = some p ∧ context.callee <+: line.before.drop p ∧
          (InsideName line.before p ↔
            (line.before.take p).getLast?.any (0x80 ≤ ·) = true ∧
              ∀ comment ∈ Token.lex line.before, comment.kind = .comment → p ≤ comment.pos) := by
  refine ⟨fun token atEnd last name => exists_currentWord?_iff atEnd last name, fun context found => ?_⟩
  rw [callContext?_eq_callIn?] at found
  obtain ⟨bracket, isBracket, isCallee⟩ := of_callIn? found
  obtain ⟨front, gap, ends, place⟩ := endsInCallee_of_calleeBefore? isCallee
  have parts := ends.split
  refine ⟨front.length, ?_, ?_, ?_⟩
  · rw [calleePlace?, isBracket, Option.map_some, place]
  · rw [parts, List.drop_left]
    exact List.prefix_append _ _
  · have before : line.before.take front.length = front := by rw [parts, List.take_left]
    rw [before]
    exact ends.insideName_iff (List.mem_of_find?_eq_some isBracket)

/-- A name of ASCII letters is a word, and the callee is a name of its own. -/
theorem whole_names_beside_accent :
    let line : InputLine := { before := bytes "é + max(ab" }
    let token : Token := { kind := .name, text := bytes "ab", pos := 9 }
    (Token.lex line.before).getLast? = some token ∧
      (∃ word, line.currentWord? = some word ∧ token.text <:+ word) ∧
      ∃ p, calleePlace? line.before = some p ∧ bytes "max" <+: line.before.drop p ∧
        ¬InsideName line.before p := by
  intro line token
  have last : (Token.lex line.before).getLast? = some token := by decide +kernel
  have context : callContext? line.before = some { callee := bytes "max", argIndex := 0 } := by decide +kernel
  obtain ⟨words, callees⟩ := whole_names_iff line
  obtain ⟨p, place, callee, inside_iff⟩ := callees _ context
  refine ⟨last, (words token rfl last (.inl rfl)).2 (by decide +kernel), p, place, callee, ?_⟩
  have isPlace : calleePlace? line.before = some 5 := by decide +kernel
  obtain rfl : 5 = p := Option.some.inj (isPlace.symm.trans place)
  rw [inside_iff]
  decide +kernel

/-- Of either name only what is behind the accented letter is taken. -/
theorem accent_parts_names :
    (Utf8.IsValid (bytes "éx") ∧ Token.lex (bytes "éx") = [{ kind := .name, text := bytes "éx", pos := 0 }] ∧
        ({ before := bytes "éx" } : InputLine).currentWord? = some (bytes "x")) ∧
      Utf8.IsValid (bytes "éf(") ∧
        callContext? (bytes "éf(") = some { callee := bytes "f", argIndex := 0 } ∧
        calleePlace? (bytes "éf(") = some 2 ∧ InsideName (bytes "éf(") 2 := by
  refine ⟨⟨Utf8.isValid_encode "éx".toList, by decide +kernel, by decide +kernel⟩,
    Utf8.isValid_encode "éf(".toList, by decide +kernel, by decide +kernel, ?_⟩
  exact ⟨{ kind := .name, text := bytes "éf", pos := 0 }, by decide +kernel, .inl rfl, by decide +kernel⟩

end CalcShell.Completion
