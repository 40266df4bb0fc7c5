import CalcShell.Calc.Token
import CalcShell.Proofs.Text.Cells
import Mathlib.Data.List.TakeWhile

/-! The tokens of a valid text are valid texts: wherever one token ends and the next one begins there
is an ASCII character on one side. -/
namespace CalcShell.Calc

open Utf8 (IsValid IsSeam)

namespace Token

/-! ### ASCII characters -/

lemma lt_of_isBlank {b : UInt8} (blank : isBlank b) : b < 0x80 := by
  rw [isBlank, Bool.or_eq_true, beq_iff_eq, beq_iff_eq] at blank
  rcases blank with rfl | rfl <;> decide

lemma lt_of_isDigit {b : UInt8} (digit : Ascii.isDigit b) : b < 0x80 := by
  rw [Ascii.isDigit, Bool.and_eq_true, decide_eq_true_eq, decide_eq_true_eq] at digit
  exact UInt8.lt_of_le_of_lt digit.2 (by decide)

lemma lt_of_isMantissa {b : UInt8} (mantissa : isMantissa b) : b < 0x80 := by
  rw [isMantissa, Bool.or_eq_true, beq_iff_eq] at mantissa
  rcases mantissa with digit | rfl
  · exact lt_of_isDigit digit
  · decide

lemma lt_of_startsNumber {b : UInt8} {rest : Bytes} (number : startsNumber b rest) : b < 0x80 := by
  rw [startsNumber, Bool.or_eq_true, Bool.and_eq_true, beq_iff_eq] at number
  rcases number with digit | ⟨rfl, -⟩
  · exact lt_of_isDigit digit
  · decide

/-- Only an ASCII character ends a name or stands outside of one. -/
lemma lt_of_not_startsName {b : UInt8} (other : ¬startsName b) : b < 0x80 := by
  rw [startsName, Bool.or_eq_true, decide_eq_true_eq] at other
  exact UInt8.not_le.1 fun beyond => other (.inr beyond)

lemma lt_of_quote {b : UInt8} (quote : (b = Ascii.doubleQuote || b = Ascii.singleQuote) = true) :
    b < 0x80 := by
  rw [Bool.or_eq_true, decide_eq_true_eq, decide_eq_true_eq] at quote
  rcases quote with rfl | rfl <;> decide

lemma lt_of_doubleOperator : ∀ operator ∈ doubleOperators, ∀ b ∈ operator, b < (0x80 : UInt8) := by
  have ascii : doubleOperators.all (·.all (· < 0x80)) = true := by rfl
  intro operator mem b inside
  exact of_decide_eq_true (List.all_eq_true.1 (List.all_eq_true.1 ascii operator mem) b inside)

/-! ### The end of a token -/

/-- A string ends behind its closing quote, and one without any reaches to the end of the text. -/
lemma scanString_ends (quote : UInt8) (rest : Bytes) :
    rest.drop (scanString quote rest).1 = [] ∨
      ∃ inner, rest.take (scanString quote rest).1 = inner ++ [quote] := by
  fun_induction scanString quote rest with
  | case1 => exact .inl rfl
  | case2 rest => exact .inr ⟨[], rfl⟩
  | case3 => exact .inl rfl
  | case4 hidden rest n closed scanned _ ih =>
    rw [scanned] at ih
    rcases ih with reached | ⟨inner, taken⟩
    · exact .inl reached
    · refine .inr ⟨Ascii.backslash :: hidden :: inner, ?_⟩
      rw [List.take_succ_cons, List.take_succ_cons, taken]
      rfl
  | case5 b rest _ _ n closed scanned ih =>
    rw [scanned] at ih
    rcases ih with reached | ⟨inner, taken⟩
    · exact .inl reached
    · exact .inr ⟨b :: inner, by rw [List.take_succ_cons, taken]; rfl⟩

lemma take_length_takeWhile (p : UInt8 → Bool) (text : Bytes) :
    text.take (text.takeWhile p).length = text.takeWhile p :=
  (List.prefix_iff_eq_take.1 (List.takeWhile_prefix p)).symm

lemma drop_length_takeWhile (p : UInt8 → Bool) (text : Bytes) :
    text.drop (text.takeWhile p).length = text.dropWhile p := by
  have split : text.takeWhile p ++ text.dropWhile p = text := List.takeWhile_append_dropWhile
  calc text.drop (text.takeWhile p).length
    _ = (text.takeWhile p ++ text.dropWhile p).drop (text.takeWhile p).length := by rw [split]
    _ = text.dropWhile p := List.drop_left

/-- The letter of an exponent, its sign and its digits. -/
lemma forall_mem_signed {P : UInt8 → Prop} (digit : ∀ b, Ascii.isDigit b → P b) {e : UInt8} (letter : P e)
    {sign : Nat} {rest : Bytes} (signs : ∀ b ∈ rest.take sign, P b) :
    ∀ b ∈ (e :: rest).take (1 + sign + ((rest.drop sign).takeWhile Ascii.isDigit).length), P b := by
  intro b mem
  rw [List.take_add, Nat.add_comm, List.take_succ_cons, List.drop_succ_cons, take_length_takeWhile,
    List.cons_append, List.mem_cons, List.mem_append] at mem
  rcases mem with rfl | isSign | isDigit
  · exact letter
  · exact signs b isSign
  · exact digit b (List.mem_takeWhile_imp isDigit)

lemma forall_mem_exponent {P : UInt8 → Prop} (digit : ∀ b, Ascii.isDigit b → P b)
    (mark : ∀ b ∈ bytes "eE+-", P b) (text : Bytes) : ∀ b ∈ text.take (exponentLength text), P b := by
  unfold exponentLength
  split
  · rename_i e rest
    split
    · rename_i isLetter
      have letter : P e := by
        rw [Bool.or_eq_true, decide_eq_true_eq, decide_eq_true_eq] at isLetter
        rcases isLetter with rfl | rfl <;> exact mark _ (by decide)
      dsimp only
      split
      · nofun
      · apply forall_mem_signed digit letter
        cases rest with
        | nil => nofun
        | cons s rest =>
          dsimp only [List.head?_cons]
          split
          · rename_i isSign
            rw [Bool.or_eq_true, decide_eq_true_eq, decide_eq_true_eq] at isSign
            rw [List.take_succ_cons, List.take_zero, List.forall_mem_singleton]
            rcases isSign with rfl | rfl <;> exact mark _ (by decide)
          · nofun
    · nofun
  · nofun

/-- Where a token ends no character is cut. -/
lemma scan_isSeam (b : UInt8) (rest : Bytes) :
    IsSeam (b :: rest.take (scan b rest).2) (rest.drop (scan b rest).2) := by
  have of_ascii (n : Nat) (first : b < 0x80) (others : ∀ c ∈ rest.take n, c < (0x80 : UInt8)) :
      IsSeam (b :: rest.take n) (rest.drop n) :=
    Utf8.isSeam_of_ascii (List.cons_ne_nil _ _) (List.forall_mem_cons.2 ⟨first, others⟩) _
  unfold scan
  split
  · rename_i blank
    refine of_ascii _ (lt_of_isBlank blank) fun c mem => ?_
    rw [take_length_takeWhile] at mem
    exact lt_of_isBlank (List.mem_takeWhile_imp mem)
  · split
    · exact .inl List.drop_length
    · split
      · rename_i quote
        rcases scanString_ends b rest with reached | ⟨inner, taken⟩
        · exact .inl reached
        · exact .inr (.inr ⟨b :: inner, b, by rw [taken]; rfl, lt_of_quote quote⟩)
      · split
        · rename_i number
          refine of_ascii _ (lt_of_startsNumber number) fun c mem => ?_
          dsimp only at mem
          rw [List.take_add, List.mem_append, take_length_takeWhile] at mem
          rcases mem with inMantissa | inExponent
          · exact lt_of_isMantissa (List.mem_takeWhile_imp inMantissa)
          · have ascii : (bytes "eE+-").all (· < 0x80) = true := by rfl
            exact forall_mem_exponent (fun _ => lt_of_isDigit)
              (fun _ mark => of_decide_eq_true (List.all_eq_true.1 ascii _ mark)) _ c inExponent
        · split
          · dsimp only
            rw [drop_length_takeWhile]
            have ends := List.head?_dropWhile_not continuesName rest
            cases behind : rest.dropWhile continuesName with
            | nil => exact .inl rfl
            | cons c others =>
              rw [behind] at ends
              have ends : continuesName c = false := ends
              rw [continuesName, Bool.or_eq_false_iff] at ends
              refine .inr (.inl ⟨c, others, rfl, lt_of_not_startsName ?_⟩)
              rw [ends.1]
              exact Bool.false_ne_true
          · rename_i other
            have ascii := lt_of_not_startsName other
            split
            · exact of_ascii 0 ascii nofun
            · split
              · rename_i double
                have both := lt_of_doubleOperator _ (List.contains_iff_mem.1 double)
                exact of_ascii 1 ascii (List.forall_mem_cons.1 both).2
              · exact of_ascii 0 ascii nofun

lemma isValid_of_mem_lexFrom {pos : Nat} {text : Bytes} (valid : IsValid text) :
    ∀ token ∈ lexFrom pos text, IsValid token.text := by
  induction pos, text using lexFrom.induct with
  | case1 => simp [lexFrom]
  | case2 pos b rest kind n scanned ih =>
    have seam := scan_isSeam b rest
    rw [scanned] at seam
    obtain ⟨first, others⟩ := IsValid.split_of_isSeam
      (by rwa [List.cons_append, List.take_append_drop]) seam
    rw [lexFrom, scanned]
    exact List.forall_mem_cons.2 ⟨first, ih others⟩

/-- Cutting a valid text into tokens cuts no character. -/
theorem isValid_of_mem_lex {text : Bytes} (valid : IsValid text) {token : Token}
    (mem : token ∈ lex text) : IsValid token.text := isValid_of_mem_lexFrom valid token mem

end Token

lemma isValid_highlight {text : Bytes} (valid : IsValid text) : (highlight text).IsValid := by
  refine (StyledLine.cells_merge fun run mem => ?_).2
  obtain ⟨token, isToken, rfl⟩ := List.mem_map.1 mem
  exact Token.isValid_of_mem_lex valid isToken

end CalcShell.Calc
