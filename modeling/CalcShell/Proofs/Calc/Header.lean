import CalcShell.Proofs.Calc.Continuation
import CalcShell.Proofs.Calc.Tiling

/-! The header of a block is read in parts: its word, its count and its colon. -/
namespace CalcShell.Calc
open Token (content unplaced hasComment ClosesStrings bracketDepth significant isSignificant isBlank)

def colon : UInt8 := Ascii.code ':'

/-- The line that begins a block. -/
def header (count : Bytes) : Bytes := bytes "repeat " ++ count ++ [colon]

namespace Token

lemma scan_fst_of_not_isBlank {b : UInt8} (marked : isBlank b = false) (rest : Bytes) :
    (scan b rest).1 ≠ .whitespace := by
  unfold scan
  grind

/-- A colon is a token of its own, unless it stands in a comment or an open string. -/
lemma lexFrom_append_colon {text : Bytes} (closed : ClosesStrings text)
    (noComment : hasComment text = false) (pos : Nat) :
    lexFrom pos (text ++ [colon]) =
      lexFrom pos text ++ [{ kind := .punctuation, text := [colon], pos := pos + text.length }] := by
  induction text using token_induction generalizing pos with
  | nil =>
    rw [List.nil_append, lexFrom_cons, lexFrom_nil]
    change { kind := (scan colon []).1, text := [colon], pos } :: lexFrom _ [] = _
    rw [lexFrom_nil]
    rfl
  | cons b rest ih =>
    obtain ⟨first, others⟩ := closed.of_cons
    rw [hasComment_cons, Bool.or_eq_false_iff, beq_eq_false_iff_ne] at noComment
    have within := scan_le b rest
    have same : scan b (rest ++ [colon]) = scan b rest := by
      cases blank : isBlank b with
      | true => rw [scan_of_isBlank blank, scan_of_isBlank blank, takeWhile_append_cons (by decide)]
      | false => exact scan_append_separator (by decide) blank noComment.1 first []
    have place : pos + 1 + (scan b rest).2 + (rest.drop (scan b rest).2).length =
        pos + (b :: rest).length := by
      rw [List.length_drop, List.length_cons]
      omega
    rw [List.cons_append, lexFrom_cons, lexFrom_cons, same, List.take_append_of_le_length within,
      List.drop_append_of_le_length within, ih others noComment.2, place]
    rfl

lemma ClosesStrings.dropWhile {text : Bytes} (closed : ClosesStrings text) :
    ClosesStrings (text.dropWhile isBlank) := by
  cases text with
  | nil => exact closed
  | cons b rest =>
    cases blank : isBlank b with
    | true =>
      have others := closed.of_cons.2
      rw [scan_of_isBlank blank, drop_length_takeWhile] at others
      rwa [List.dropWhile_cons_of_pos blank]
    | false => rwa [List.dropWhile_cons_of_neg (Bool.eq_false_iff.1 blank)]

lemma hasComment_dropWhile {text : Bytes} (noComment : hasComment text = false) :
    hasComment (text.dropWhile isBlank) = false := by
  cases text with
  | nil => exact noComment
  | cons b rest =>
    cases blank : isBlank b with
    | true =>
      rw [hasComment_cons, Bool.or_eq_false_iff, scan_of_isBlank blank, drop_length_takeWhile]
        at noComment
      rw [List.dropWhile_cons_of_pos blank]
      exact noComment.2
    | false => rwa [List.dropWhile_cons_of_neg (Bool.eq_false_iff.1 blank)]

/-- A text that begins with no blank and has no comments begins with a token that counts. -/
lemma exists_significant_lexFrom {b : UInt8} {rest : Bytes} (marked : isBlank b = false)
    (noComment : hasComment (b :: rest) = false) (pos : Nat) :
    ∃ first more, (lexFrom pos (b :: rest)).filter isSignificant = first :: more ∧
      first.pos = pos := by
  rw [hasComment_cons, Bool.or_eq_false_iff, beq_eq_false_iff_ne] at noComment
  have counts : isSignificant { kind := (scan b rest).1, text := b :: rest.take (scan b rest).2, pos } =
      true := by
    rw [isSignificant, Bool.and_eq_true, bne_iff_ne, bne_iff_ne]
    exact ⟨scan_fst_of_not_isBlank marked rest, noComment.1⟩
  exact ⟨_, _, by rw [lexFrom_cons, List.filter_cons_of_pos counts], rfl⟩

lemma map_unplaced_filter_lexFrom (pos : Nat) (text : Bytes) :
    ((lexFrom pos text).filter isSignificant).map unplaced = content text := by
  rw [content_eq_filter, lex, map_unplaced_lexFrom text 0 pos, List.filter_map]
  rfl

end Token

/-! ### The parts of a header -/

/-- Bytes of a header before its count. -/
def countPlace (count : Bytes) : Nat := 7 + (count.takeWhile isBlank).length

variable {count : Bytes}

lemma drop_countPlace (count : Bytes) :
    (header count).drop (countPlace count) = count.dropWhile isBlank ++ [colon] := by
  have behind : (header count).drop 7 = count ++ [colon] := by
    rw [header, List.append_assoc]
    rfl
  rw [countPlace, ← List.drop_drop, behind,
    List.drop_append_of_le_length (List.takeWhile_prefix isBlank).length_le, Token.drop_length_takeWhile]

lemma significant_header (closed : ClosesStrings count) (noComment : hasComment count = false) :
    significant (header count) = { kind := .keyword, text := bytes "repeat", pos := 0 } ::
      ((Token.lexFrom (countPlace count) (count.dropWhile isBlank)).filter isSignificant ++
        [{ kind := .punctuation, text := [colon]
           pos := countPlace count + (count.dropWhile isBlank).length }]) := by
  have word : Token.scan (Ascii.code 'r') (bytes "epeat" ++ Ascii.space :: (count ++ [colon])) =
      (.keyword, 5) := by
    rw [Token.scan_append_separator (by decide) (by decide) (by decide) (by decide)]
    decide
  have split : header count = Ascii.code 'r' :: (bytes "epeat" ++ Ascii.space :: (count ++ [colon])) := by
    rw [header, List.append_assoc]
    rfl
  have blanks : (count ++ [colon]).takeWhile isBlank = count.takeWhile isBlank :=
    Token.takeWhile_append_cons (by decide) count []
  have others : (count ++ [colon]).drop (count.takeWhile isBlank).length =
      count.dropWhile isBlank ++ [colon] := by
    rw [List.drop_append_of_le_length (List.takeWhile_prefix isBlank).length_le,
      Token.drop_length_takeWhile]
  rw [significant, Token.lex, split, Token.lexFrom_cons, word]
  change ({ kind := .keyword, text := bytes "repeat", pos := 0 } ::
    Token.lexFrom 6 (Ascii.space :: (count ++ [colon]))).filter isSignificant = _
  rw [Token.lexFrom_cons, Token.scan_of_isBlank (by decide), blanks, others,
    Token.lexFrom_append_colon closed.dropWhile (Token.hasComment_dropWhile noComment)]
  rw [List.filter_cons_of_pos (by decide), List.filter_cons_of_neg (by simp [isSignificant]),
    List.filter_append]
  rfl

/-- A header leaves as many brackets open as its count. -/
lemma bracketDepth_header (closed : ClosesStrings count) (noComment : hasComment count = false) :
    bracketDepth (significant (header count)) = bracketDepth (significant count) := by
  have inside : bracketDepth ((Token.lexFrom (countPlace count) (count.dropWhile isBlank)).filter
      isSignificant) = bracketDepth (significant count) := by
    rw [← bracketDepth_unplaced, Token.map_unplaced_filter_lexFrom, Token.content_dropWhile, content,
      bracketDepth_unplaced]
  have word : bracketDepth [{ kind := .keyword, text := bytes "repeat", pos := 0 }] = 0 := by decide
  have mark (pos : Nat) : bracketDepth [{ kind := .punctuation, text := [colon], pos }] = 0 := by rfl
  rw [significant_header closed noComment, ← List.singleton_append, bracketDepth_append,
    bracketDepth_append, inside, word, mark, zero_add, add_zero]

/-- The count of a header is all that stands between its word and its colon, but for blanks at the
front. -/
theorem repeatCount?_header (closed : ClosesStrings count) (noComment : hasComment count = false) :
    repeatCount? (header count) (significant (header count)) = some (count.dropWhile isBlank) := by
  have taken : ((header count).drop (countPlace count)).take
      (countPlace count + (count.dropWhile isBlank).length - countPlace count) =
        count.dropWhile isBlank := by
    rw [drop_countPlace, Nat.add_sub_cancel_left, List.take_left]
  rw [significant_header closed noComment]
  cases shown : count.dropWhile isBlank with
  | nil =>
    rw [shown] at taken
    rw [Token.lexFrom_nil]
    exact congrArg some taken
  | cons b rest =>
    have marked : isBlank b = false := by
      have first := List.head?_dropWhile_not isBlank count
      rw [shown] at first
      exact first
    have plain : hasComment (b :: rest) = false := shown ▸ Token.hasComment_dropWhile noComment
    obtain ⟨first, more, isFirst, place⟩ :=
      Token.exists_significant_lexFrom marked plain (countPlace count)
    rw [shown] at taken
    have last (word close : Token) : (word :: first :: (more ++ [close])).getLast? = some close :=
      List.getLast?_concat (l := word :: first :: more)
    rw [isFirst, List.cons_append]
    simp only [repeatCount?, last, place, taken]
    rfl

end CalcShell.Calc
