import CalcShell.Proofs.Calc.Tokens

/-! Tokens on both sides of a space. Only comments and open strings go on behind one, so a text whose
strings are closed may be read by itself, whatever comes behind a space. -/
namespace CalcShell.Calc.Token

/-! ### The front of a text -/

lemma scanString_le (quote : UInt8) (text : Bytes) : (scanString quote text).1 ≤ text.length := by
  fun_induction scanString quote text with
  | case1 => exact Nat.le_refl 0
  | case2 rest => exact Nat.le_add_left 1 rest.length
  | case3 => exact Nat.le_refl 1
  | case4 hidden rest n closed scanned _ ih =>
    rw [scanned] at ih
    exact Nat.add_le_add_right ih 2
  | case5 b rest _ _ n closed scanned ih =>
    rw [scanned] at ih
    exact Nat.add_le_add_right ih 1

/-- A string without a closing quote reaches to the end of the text. -/
lemma length_scanString_of_open {quote : UInt8} {text : Bytes}
    (isOpen : (scanString quote text).2 = false) : (scanString quote text).1 = text.length := by
  fun_induction scanString quote text with
  | case1 => rfl
  | case2 => cases isOpen
  | case3 => rfl
  | case4 hidden rest n closed scanned _ ih =>
    rw [scanned] at ih
    exact congrArg (· + 2) (ih isOpen)
  | case5 b rest _ _ n closed scanned ih =>
    rw [scanned] at ih
    exact congrArg (· + 1) (ih isOpen)

/-- Length of the sign of an exponent. -/
def signLength (text : Bytes) : Nat :=
  match text.head? with
  | some s => if s = Ascii.code '+' || s = Ascii.code '-' then 1 else 0
  | none => 0

lemma signLength_le (text : Bytes) : signLength text ≤ text.length := by
  cases text with
  | nil => exact Nat.le_refl 0
  | cons s rest =>
    rw [List.length_cons, signLength, List.head?_cons]
    dsimp only
    split <;> omega

lemma exponentLength_cons (e : UInt8) (rest : Bytes) :
    exponentLength (e :: rest) =
      if e = Ascii.code 'e' || e = Ascii.code 'E' then
        match ((rest.drop (signLength rest)).takeWhile Ascii.isDigit).length with
        | 0 => 0
        | digits => 1 + signLength rest + digits
      else 0 := rfl

lemma exponentLength_le (text : Bytes) : exponentLength text ≤ text.length := by
  cases text with
  | nil => exact Nat.le_refl 0
  | cons e rest =>
    have digits := (List.takeWhile_prefix Ascii.isDigit (l := rest.drop (signLength rest))).length_le
    rw [List.length_drop] at digits
    rw [exponentLength_cons, List.length_cons]
    split
    · split
      · exact Nat.zero_le _
      · have sign := signLength_le rest
        change 1 + signLength rest + (List.takeWhile _ _).length ≤ rest.length + 1
        omega
    · exact Nat.zero_le _

/-- Bytes behind which only white space, comments and open strings go on. -/
def separators : Bytes := [Ascii.space, Ascii.code ':']

lemma length_of_mem_doubleOperators :
    ∀ operator ∈ doubleOperators, operator.length = 2 ∧ ∀ c ∈ separators, c ∉ operator := by
  decide +kernel

/-- A token ends within its text. -/
lemma scan_le (b : UInt8) (rest : Bytes) : (scan b rest).2 ≤ rest.length := by
  have within (p : UInt8 → Bool) : (rest.takeWhile p).length ≤ rest.length :=
    (List.takeWhile_prefix p).length_le
  unfold scan
  split
  · exact within isBlank
  · split
    · exact Nat.le_refl _
    · split
      · exact scanString_le b rest
      · split
        · have exponent := exponentLength_le (rest.drop (rest.takeWhile isMantissa).length)
          have mantissa := within isMantissa
          rw [List.length_drop] at exponent
          dsimp only
          omega
        · split
          · exact within continuesName
          · split
            · exact Nat.zero_le _
            · split
              · rename_i double
                have length := (length_of_mem_doubleOperators _ (List.contains_iff_mem.1 double)).1
                rw [List.length_cons, List.length_take] at length
                dsimp only
                omega
              · exact Nat.zero_le _

/-! ### A separator behind a text -/

variable {b c : UInt8} {rest : Bytes}

lemma takeWhile_append_cons {p : UInt8 → Bool} (stops : p c = false) (text behind : Bytes) :
    (text ++ c :: behind).takeWhile p = text.takeWhile p := by
  rw [List.takeWhile_append]
  split
  · rename_i all
    rw [List.takeWhile_cons_of_neg (by simp [stops]), List.append_nil]
    exact ((List.takeWhile_prefix p).eq_of_length all).symm
  · rfl

lemma scanString_append {quote : UInt8} {text : Bytes} (closed : (scanString quote text).2 = true)
    (behind : Bytes) : scanString quote (text ++ behind) = scanString quote text := by
  fun_induction scanString quote text with
  | case1 => cases closed
  | case2 rest =>
    rw [List.cons_append]
    unfold scanString
    rw [if_pos rfl]
  | case3 => cases closed
  | case4 hidden rest n isClosed scanned other ih =>
    rw [scanned] at ih
    rw [List.cons_append, List.cons_append]
    unfold scanString
    rw [if_neg other, if_pos rfl]
    dsimp only
    rw [ih closed]
  | case5 b rest other plain n isClosed scanned ih =>
    rw [scanned] at ih
    rw [List.cons_append]
    unfold scanString
    rw [if_neg other, if_neg plain, ih closed]

lemma head?_append_cons_any {p : UInt8 → Bool} (stops : p c = false) (text behind : Bytes) :
    (text ++ c :: behind).head?.any p = text.head?.any p := by
  cases text with
  | nil => exact stops
  | cons => rfl

lemma stops_of_mem_separators : ∀ c ∈ separators, Ascii.isDigit c = false ∧ isMantissa c = false ∧
    continuesName c = false ∧ c ∉ bytes "eE+-" := by decide +kernel

lemma signLength_append_separator (separates : c ∈ separators) (text behind : Bytes) :
    signLength (text ++ c :: behind) = signLength text := by
  obtain ⟨-, -, -, plain⟩ := stops_of_mem_separators c separates
  have noSign : (c = Ascii.code '+' || c = Ascii.code '-') = false := by
    simp only [Bool.or_eq_false_iff, decide_eq_false_iff_not]
    exact ⟨by rintro rfl; exact plain (by decide), by rintro rfl; exact plain (by decide)⟩
  cases text with
  | nil =>
    change (if (c = Ascii.code '+' || c = Ascii.code '-') = true then 1 else 0) = 0
    rw [noSign, if_neg Bool.false_ne_true]
  | cons => rfl

lemma exponentLength_append_separator (separates : c ∈ separators) (text behind : Bytes) :
    exponentLength (text ++ c :: behind) = exponentLength text := by
  obtain ⟨noDigit, -, -, plain⟩ := stops_of_mem_separators c separates
  cases text with
  | nil =>
    have noLetter : ¬(c = Ascii.code 'e' || c = Ascii.code 'E') = true := by
      rw [Bool.or_eq_true, decide_eq_true_eq, decide_eq_true_eq]
      rintro (rfl | rfl) <;> exact plain (by decide)
    rw [List.nil_append, exponentLength_cons, if_neg noLetter]
    rfl
  | cons e rest =>
    rw [List.cons_append, exponentLength_cons, exponentLength_cons,
      signLength_append_separator separates, List.drop_append_of_le_length (signLength_le rest),
      takeWhile_append_cons noDigit]

lemma isDouble_append_separator (separates : c ∈ separators) (b : UInt8) (rest behind : Bytes) :
    doubleOperators.contains (b :: (rest ++ c :: behind).take 1) =
      doubleOperators.contains (b :: rest.take 1) := by
  cases rest with
  | nil =>
    have none (text : Bytes) (not : text.length ≠ 2 ∨ c ∈ text) :
        doubleOperators.contains text = false := by
      rw [List.contains_eq_mem, decide_eq_false_iff_not]
      intro mem
      obtain ⟨length, plain⟩ := length_of_mem_doubleOperators _ mem
      rcases not with other | inside
      · exact other length
      · exact plain c separates inside
    rw [none _ (.inr (by simp)), none _ (.inl (by simp))]
  | cons c rest => rfl

lemma scan_of_isBlank {b : UInt8} (blank : isBlank b = true) (rest : Bytes) :
    scan b rest = (.whitespace, (rest.takeWhile isBlank).length) := by
  rw [scan, if_pos blank]

/-- A comment reaches to the end, whatever comes behind it. -/
lemma scan_of_comment {b : UInt8} {rest : Bytes} (comment : (scan b rest).1 = .comment)
    (other : Bytes) : scan b other = (.comment, other.length) := by
  unfold scan at comment ⊢
  by_cases blank : isBlank b = true
  · rw [if_pos blank] at comment
    cases comment
  · rw [if_neg blank] at comment ⊢
    by_cases hash : b = Ascii.code '#'
    · rw [if_pos hash]
    · rw [if_neg hash] at comment
      split_ifs at comment
      dsimp only at comment
      split_ifs at comment

/-- Unless it is white space, a comment or an open string, a token does not go on behind a
separator. -/
lemma scan_append_separator (separates : c ∈ separators) (marked : isBlank b = false)
    (noComment : (scan b rest).1 ≠ .comment)
    (closed : (scan b rest).1 = .string → (scanString b rest).2 = true) (behind : Bytes) :
    scan b (rest ++ c :: behind) = scan b rest := by
  obtain ⟨noDigit, noMantissa, noName, -⟩ := stops_of_mem_separators c separates
  unfold scan at noComment closed ⊢
  simp only [marked, Bool.false_eq_true, if_false] at noComment closed ⊢
  by_cases hash : b = Ascii.code '#'
  · exact absurd (congrArg Prod.fst (if_pos hash)) noComment
  · simp only [hash, if_false] at closed ⊢
    by_cases quote : (b = Ascii.doubleQuote || b = Ascii.singleQuote) = true
    · simp only [quote, if_true] at closed ⊢
      rw [scanString_append (closed trivial)]
    · simp only [quote, Bool.false_eq_true, if_false]
      have number : startsNumber b (rest ++ c :: behind) = startsNumber b rest := by
        rw [startsNumber, head?_append_cons_any noDigit, startsNumber]
      rw [number, isDouble_append_separator separates, takeWhile_append_cons noMantissa,
        takeWhile_append_cons noName,
        List.drop_append_of_le_length (List.takeWhile_prefix isMantissa).length_le,
        exponentLength_append_separator separates]

/-! ### The tokens of a text -/

/-- A token, wherever it stands. -/
def unplaced (token : Token) : Token := { token with pos := 0 }

/-- What a text says, wherever it stands: its tokens but for white space and comments. -/
def content (text : Bytes) : List Token := (significant text).map unplaced

/-- The string has a closing quote. -/
def isClosed (token : Token) : Bool :=
  match token.text with
  | quote :: rest => (scanString quote rest).2
  | [] => false

/-- Every string of a text has its closing quote. -/
def ClosesStrings (text : Bytes) : Prop := ∀ token ∈ lex text, token.kind = .string → token.isClosed

instance (text : Bytes) : Decidable (ClosesStrings text) :=
  inferInstanceAs (Decidable (∀ token ∈ lex text, token.kind = .string → token.isClosed))

def hasComment (text : Bytes) : Bool := (lex text).any (·.kind == .comment)

/-- Token by token through a text. -/
@[elab_as_elim]
lemma token_induction {motive : Bytes → Prop} (text : Bytes) (nil : motive [])
    (cons : ∀ b rest, motive (rest.drop (scan b rest).2) → motive (b :: rest)) : motive text :=
  lexFrom.induct (fun _ => motive) (fun _ => nil)
    (fun _ b rest _ _ scanned behind => cons b rest (by rw [scanned]; exact behind)) 0 text

lemma map_unplaced_lexFrom (text : Bytes) (pos other : Nat) :
    (lexFrom pos text).map unplaced = (lexFrom other text).map unplaced := by
  induction text using token_induction generalizing pos other with
  | nil => rw [lexFrom, lexFrom]
  | cons b rest ih =>
    rw [lexFrom, lexFrom, List.map_cons, List.map_cons, ih _ (other + 1 + (scan b rest).2)]
    rfl

/-- The tokens behind the first one are those of the text behind it. -/
lemma map_unplaced_lex_cons (b : UInt8) (rest : Bytes) :
    (lex (b :: rest)).map unplaced =
      { kind := (scan b rest).1, text := b :: rest.take (scan b rest).2, pos := 0 } ::
        (lex (rest.drop (scan b rest).2)).map unplaced := by
  rw [lex, lexFrom, List.map_cons, map_unplaced_lexFrom _ _ 0]
  rfl

@[simp] lemma lex_nil : lex [] = [] := by rw [lex, lexFrom]

@[simp] lemma content_nil : content [] = [] := by simp [content, significant]

@[simp] lemma hasComment_nil : hasComment [] = false := by simp [hasComment]

lemma content_eq_filter (text : Bytes) :
    content text = ((lex text).map unplaced).filter isSignificant := by
  rw [content, significant, List.filter_map]
  rfl

lemma content_cons (b : UInt8) (rest : Bytes) :
    content (b :: rest) =
      [{ kind := (scan b rest).1, text := b :: rest.take (scan b rest).2, pos := 0 }].filter
        isSignificant ++ content (rest.drop (scan b rest).2) := by
  rw [content_eq_filter, map_unplaced_lex_cons, ← List.singleton_append, List.filter_append,
    content_eq_filter]

lemma hasComment_cons (b : UInt8) (rest : Bytes) :
    hasComment (b :: rest) =
      ((scan b rest).1 == .comment || hasComment (rest.drop (scan b rest).2)) := by
  have anywhere (text : Bytes) :
      hasComment text = ((lex text).map unplaced).any (·.kind == .comment) := by
    rw [hasComment, List.any_map]
    rfl
  rw [anywhere, map_unplaced_lex_cons, List.any_cons, anywhere]

lemma ClosesStrings.of_cons {b : UInt8} {rest : Bytes} (closed : ClosesStrings (b :: rest)) :
    ((scan b rest).1 = .string → (scanString b rest).2 = true) ∧
      ClosesStrings (rest.drop (scan b rest).2) := by
  have anywhere (text : Bytes) : ClosesStrings text ↔
      ∀ token ∈ (lex text).map unplaced, token.kind = .string → token.isClosed := by
    rw [List.forall_mem_map]
    rfl
  rw [anywhere, map_unplaced_lex_cons, List.forall_mem_cons, ← anywhere] at closed
  refine ⟨fun isString => ?_, closed.2⟩
  have inside : (scanString b (rest.take (scan b rest).2)).2 = true := closed.1 isString
  have whole := scanString_append inside (rest.drop (scan b rest).2)
  rw [List.take_append_drop] at whole
  rw [whole]
  exact inside

/-! ### Texts apart -/

lemma content_dropWhile (text : Bytes) : content (text.dropWhile isBlank) = content text := by
  cases text with
  | nil => rfl
  | cons b rest =>
    by_cases blank : isBlank b = true
    · rw [List.dropWhile_cons_of_pos blank, content_cons, scan_of_isBlank blank, drop_length_takeWhile]
      rfl
    · rw [List.dropWhile_cons_of_neg blank]

lemma content_space (text : Bytes) : content (Ascii.space :: text) = content text := by
  rw [← content_dropWhile, List.dropWhile_cons_of_pos (by decide), content_dropWhile]

/-- Behind a comment nothing is said. Otherwise both texts say what each of them says by itself. -/
theorem content_append_space {text : Bytes} (closed : ClosesStrings text) (behind : Bytes) :
    content (text ++ Ascii.space :: behind) =
      if hasComment text then content text else content text ++ content behind := by
  induction text using token_induction with
  | nil => simp [content_space]
  | cons b rest ih =>
    obtain ⟨first, others⟩ := closed.of_cons
    by_cases comment : (scan b rest).1 = .comment
    · have found : hasComment (b :: rest) = true := by rw [hasComment_cons, comment]; rfl
      rw [if_pos found, List.cons_append, content_cons, content_cons, scan_of_comment comment,
        scan_of_comment comment, List.drop_length, List.drop_length]
      rfl
    · have found : hasComment (b :: rest) = hasComment (rest.drop (scan b rest).2) := by
        rw [hasComment_cons, beq_false_of_ne comment, Bool.false_or]
      rw [found, List.cons_append]
      cases blank : isBlank b with
      | true =>
        -- White space may go on behind the space, so both texts are read without it.
        have ahead : content ((rest ++ Ascii.space :: behind).dropWhile isBlank) =
            content (rest.dropWhile isBlank ++ Ascii.space :: behind) := by
          rw [List.dropWhile_append]
          split
          · rename_i none
            rw [content_dropWhile, List.isEmpty_iff.1 none, List.nil_append]
          · rfl
        rw [scan_of_isBlank blank, drop_length_takeWhile] at ih others ⊢
        rw [← content_dropWhile, List.dropWhile_cons_of_pos blank, ahead, ih others,
          ← content_dropWhile (b :: rest), List.dropWhile_cons_of_pos blank]
      | false =>
        have within := scan_le b rest
        rw [content_cons, content_cons, scan_append_separator (by decide) blank comment first,
          List.take_append_of_le_length within, List.drop_append_of_le_length within, ih others]
        split
        · rfl
        · rw [List.append_assoc]

end CalcShell.Calc.Token
