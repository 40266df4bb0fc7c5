import CalcShell.Proofs.Editing.Line

/-! A line of bytes stands for the characters on both sides of its cursor. What every edit does to the
characters is said here without their bytes, and edits of the bytes do just that, however many bytes the
characters take. -/
namespace CalcShell
open Utf8 (encode)

/-- The characters on both sides of the cursor and those of the last cut. -/
structure CharLine where
  left : List Char := []
  right : List Char := []
  cut : List Char := []
  tabLength : Int := 4
deriving DecidableEq, Repr

/-- What a line can be asked for. -/
inductive LineEdit where
  | insert (text : List Char)
  | set (text : List Char)
  | clear
  | home
  | toEnd
  | move (distance : Int)
  | backspace (tabs : Bool)
  | deleteForward
  | cutToEnd
  | yank
  | clearToStart
deriving DecidableEq, Repr

/-- What is answered: nothing, whether the edit was possible, or how many characters went. -/
inductive EditAnswer where
  | done
  | possible (isPossible : Bool)
  | removed (count : Nat)
deriving DecidableEq, Repr

/-- The answers of a list of requests one after the other, and the state that they lead to. -/
def answerAll {σ α β : Type} (answer : σ → α → β × σ) : List α → σ → List β × σ
  | [], state => ([], state)
  | request :: rest, state =>
    let (first, state) := answer state request
    let (others, state) := answerAll answer rest state
    (first :: others, state)

/-- Two machines that answer every request alike, from states of which one stands for the other, answer
all requests alike. -/
lemma answerAll_map {σ τ α β : Type} {answer : σ → α → β × σ} {answer' : τ → α → β × τ} {f : τ → σ}
    (step : ∀ state request, answer (f state) request = (answer' state request).map id f)
    (requests : List α) (state : τ) :
    answerAll answer requests (f state) = (answerAll answer' requests state).map id f := by
  induction requests generalizing state with
  | nil => rfl
  | cons request rest ih => simp [answerAll, step, ih]

namespace InputLine

def edit (line : InputLine) : LineEdit → EditAnswer × InputLine
  | .insert text => (.done, line.insert (encode text))
  | .set text => (.done, line.set (encode text))
  | .clear => (.done, line.clear)
  | .home => (.done, line.home)
  | .toEnd => (.done, line.toEnd)
  | .move distance => (.possible (line.move? distance).isSome, line.move distance)
  | .backspace tabs => (.removed (line.backspace tabs).1, (line.backspace tabs).2)
  | .deleteForward => (.possible line.deleteForward?.isSome, line.deleteForward)
  | .cutToEnd => (.done, line.cutToEnd)
  | .yank => (.done, line.yank)
  | .clearToStart => (.done, line.clearToStart)

end InputLine

namespace CharLine

/-- White space; all of it is ASCII. -/
def isSpace (c : Char) : Bool := [' ', '\t', '\n', '\x0b', '\x0c', '\r'].contains c

/-- The last tab stop below a column. -/
def tabStop (tab column : Nat) : Nat := (column - 1) / tab * tab

/-- A motion by more characters than there are on that side is refused. -/
def move? (c : CharLine) (distance : Int) : Option CharLine :=
  let n := distance.natAbs
  if 0 < distance then
    if n ≤ c.left.length then
      some { c with
        left := c.left.take (c.left.length - n)
        right := c.left.drop (c.left.length - n) ++ c.right }
    else none
  else if n ≤ c.right.length then
    some { c with left := c.left ++ c.right.take n, right := c.right.drop n }
  else none

/-- Whether the white space back to the last tab stop goes at once. -/
def isIndented (c : CharLine) : Bool := 0 < c.tabLength && c.right.isEmpty && c.left.all isSpace

def backspace (c : CharLine) (tabs : Bool) : Nat × CharLine :=
  if c.left.isEmpty then (0, c)
  else if tabs && c.isIndented then
    let stop := tabStop c.tabLength.toNat c.left.length
    (c.left.length - stop, { c with left := c.left.take stop })
  else (1, { c with left := c.left.dropLast })

def edit (c : CharLine) : LineEdit → EditAnswer × CharLine
  | .insert text => (.done, { c with left := c.left ++ text })
  | .set text => (.done, { c with left := text, right := [] })
  | .clear => (.done, { c with left := [], right := [] })
  | .home => (.done, { c with left := [], right := c.left ++ c.right })
  | .toEnd => (.done, { c with left := c.left ++ c.right, right := [] })
  | .move distance => (.possible (c.move? distance).isSome, (c.move? distance).getD c)
  | .backspace tabs => (.removed (c.backspace tabs).1, (c.backspace tabs).2)
  | .deleteForward => (.possible (!c.right.isEmpty), { c with right := c.right.tail })
  | .cutToEnd => (.done, { c with right := [], cut := c.right })
  | .yank => (.done, { c with left := c.left ++ c.cut })
  | .clearToStart => (.done, { c with left := [] })

/-- The bytes of the characters. -/
def line (c : CharLine) : InputLine :=
  { before := encode c.left, after := encode c.right, cut := encode c.cut, tabLength := c.tabLength }

/-! ### Tab stops -/

/-- The last tab stop below a column is the greatest multiple of the distance of tab stops there. -/
lemma tabStop_isGreatest {tab column : Nat} (positive : 0 < tab) (inside : 0 < column) :
    tab ∣ tabStop tab column ∧ tabStop tab column < column ∧
      ∀ stop, tab ∣ stop → stop < column → stop ≤ tabStop tab column := by
  have below : tabStop tab column ≤ column - 1 := Nat.div_mul_le_self (column - 1) tab
  refine ⟨Nat.dvd_mul_left tab _, by omega, ?_⟩
  rintro stop ⟨k, rfl⟩ low
  have : k ≤ (column - 1) / tab := (Nat.le_div_iff_mul_le positive).2 (by rw [Nat.mul_comm]; omega)
  rw [tabStop, Nat.mul_comm tab k]
  exact Nat.mul_le_mul_right tab this

/-- How far it is back to the last tab stop. -/
lemma sub_tabStop {tab column : Nat} (positive : 0 < tab) (inside : 0 < column) :
    column - tabStop tab column = if column % tab = 0 then tab else column % tab := by
  obtain ⟨k, rfl⟩ : ∃ k, column = k + 1 := ⟨column - 1, by omega⟩
  have whole := Nat.div_add_mod' k tab
  have bound := Nat.mod_lt k positive
  have next : (k + 1) % tab = (k % tab + 1) % tab := (Nat.mod_add_mod k tab 1).symm
  rw [tabStop, Nat.add_sub_cancel]
  by_cases last : k % tab + 1 = tab
  · rw [next, last, Nat.mod_self, if_pos rfl]
    omega
  · rw [next, Nat.mod_eq_of_lt (by omega), if_neg (by omega)]
    omega

/-! ### White space -/

lemma isSpace_ofNat : ∀ n < 128, Ascii.isSpace (UInt8.ofNat n) = isSpace (Char.ofNat n) := by
  decide +kernel

lemma lt_of_isSpace {c : Char} (space : isSpace c = true) : c.val ≤ 0x7F := by
  simp only [isSpace, List.contains_eq_mem, List.mem_cons, List.not_mem_nil, or_false,
    decide_eq_true_eq] at space
  rcases space with rfl | rfl | rfl | rfl | rfl | rfl <;> decide

lemma lt_of_ascii_isSpace {b : UInt8} (space : Ascii.isSpace b = true) : b < 0x80 := by
  simp only [Ascii.isSpace, Bool.or_eq_true, beq_iff_eq, Bool.and_eq_true, decide_eq_true_eq] at space
  rcases space with rfl | ⟨-, high⟩
  · decide
  · exact UInt8.lt_of_le_of_lt high (by decide)

lemma all_isSpace_encodeChar (c : Char) :
    (String.utf8EncodeChar c).all Ascii.isSpace = isSpace c := by
  by_cases ascii : c.val ≤ 0x7F
  · have low : c.toNat < 128 := by
      have := UInt32.le_iff_toNat_le.1 ascii
      exact Nat.lt_succ_of_le this
    have single := Utf8.encodeChar_ofNat c.toNat low
    rw [Char.ofNat_toNat] at single
    rw [single, List.all_cons, List.all_nil, Bool.and_true, isSpace_ofNat c.toNat low,
      Char.ofNat_toNat]
  · have other : isSpace c = false := by
      rw [Bool.eq_false_iff]
      exact fun space => ascii (lt_of_isSpace space)
    obtain ⟨b, rest, shape, -⟩ := Utf8.encodeChar_eq_cons c
    have high : ¬ b < 0x80 := by
      intro low
      apply ascii
      rw [Utf8.encodeChar_of_lt shape low] at shape
      rw [← Char.utf8Size_eq_one_iff, ← String.length_utf8EncodeChar, shape]
      rfl
    have first : Ascii.isSpace b = false := by
      rw [Bool.eq_false_iff]
      exact fun space => high (lt_of_ascii_isSpace space)
    rw [other, shape, List.all_cons, first, Bool.false_and]

lemma isBlank_encode (chars : List Char) : (encode chars).isBlank = chars.all isSpace := by
  induction chars with
  | nil => rfl
  | cons c chars ih =>
    rw [Utf8.encode_cons, List.all_cons, ← all_isSpace_encodeChar c, ← ih]
    exact List.all_append

/-- White space takes one byte for each character, so it is cut alike in both. -/
lemma encode_take_of_all_isSpace {chars : List Char} (blank : chars.all isSpace = true) (n : Nat) :
    encode (chars.take n) = (encode chars).take n := by
  induction chars generalizing n with
  | nil => simp
  | cons c chars ih =>
    obtain ⟨space, rest⟩ := (Bool.and_eq_true _ _).mp (List.all_cons ▸ blank)
    have single := String.utf8EncodeChar_eq_singleton
      (Char.utf8Size_eq_one_iff.2 (lt_of_isSpace space))
    cases n with
    | zero => simp
    | succ n => simp [single, ih rest]

lemma length_encode_of_all_isSpace {chars : List Char} (blank : chars.all isSpace = true) :
    (encode chars).length = chars.length := by
  refine ((Utf8.length_eq_length_encode_iff chars).2 fun c mem => ?_).symm
  exact lt_of_isSpace (List.all_eq_true.1 blank c mem)

/-! ### Edits -/

variable (c : CharLine)

lemma isEmpty_encode (chars : List Char) : (encode chars).isEmpty = chars.isEmpty := by
  cases chars with
  | nil => rfl
  | cons first rest =>
    rw [Utf8.encode_cons, List.isEmpty_cons, List.isEmpty_eq_false_iff]
    exact List.append_ne_nil_of_left_ne_nil String.utf8EncodeChar_ne_nil _

/-- Motions of the bytes go by characters, and are refused when there are too few of them. -/
lemma move?_line (distance : Int) : c.line.move? distance = (c.move? distance).map line := by
  unfold InputLine.move? move?
  dsimp only
  rw [InputLine.left?_encode _ c.left c.line rfl, InputLine.right?_encode _ c.right c.line rfl]
  simp only [apply_ite (Option.map line), Option.map_some, Option.map_none]
  simp [line]

lemma dropBack_line {left : List Char} {last : Char} (ends : c.left = left ++ [last]) :
    c.line.dropBack c.line.backLength = line { c with left } := by
  have before : c.line.before = encode left ++ String.utf8EncodeChar last := by
    simp [line, ends]
  have length : c.line.backLength = (String.utf8EncodeChar last).length := by
    rw [InputLine.backLength, before, Utf8.lastLength_append_encodeChar]
  unfold InputLine.dropBack
  rw [length, before, List.length_append, Nat.add_sub_cancel, List.take_left]
  rfl

/-- On a line of white space with its cursor at the end, the bytes back to the last tab stop are as many
as the characters. -/
lemma tabBack?_line (typed : c.left ≠ []) : c.line.tabBack? =
    if c.isIndented then
      some (c.left.length - tabStop c.tabLength.toNat c.left.length)
    else none := by
  have conditions : (0 < c.line.tabLength.toNat && c.line.atEnd && c.line.before.isBlank) =
      c.isIndented := by
    simp [line, isIndented, InputLine.atEnd, isEmpty_encode, isBlank_encode]
  unfold InputLine.tabBack?
  dsimp only
  rw [conditions]
  split
  · rename_i indented
    simp only [isIndented, Bool.and_eq_true, decide_eq_true_eq] at indented
    have index : c.line.index = c.left.length := length_encode_of_all_isSpace indented.2
    rw [sub_tabStop (by omega) (List.length_pos_iff.2 typed), index]
    rfl
  · rfl

/-- Deleting to the left takes the last character, or the white space back to the last tab stop. -/
lemma backspace_line (tabs : Bool) : c.line.backspace tabs = (c.backspace tabs).map id line := by
  unfold InputLine.backspace backspace
  rcases c.left.eq_nil_or_concat with none | ⟨left, last, ends⟩
  · simp [line, none]
  · rw [List.concat_eq_append] at ends
    have typed : c.left ≠ [] := by simp [ends]
    have before : c.line.before.isEmpty = false := by simp [line, isEmpty_encode, typed]
    have plain : (1, c.line.dropBack c.line.backLength) =
        Prod.map id line (1, { c with left := c.left.dropLast }) := by
      simp [dropBack_line c ends, ends]
    have typed' : c.left.isEmpty = false := by simp [typed]
    rw [before, typed', if_neg Bool.false_ne_true, if_neg Bool.false_ne_true, tabBack?_line c typed]
    cases tabs with
    | false => exact plain
    | true =>
      by_cases indented : c.isIndented = true
      · have blank : c.left.all isSpace = true := by
          simp only [isIndented, Bool.and_eq_true] at indented
          exact indented.2
        have stop_le : tabStop c.tabLength.toNat c.left.length ≤ c.left.length :=
          Nat.le_trans (Nat.div_mul_le_self _ _) (Nat.sub_le _ _)
        have bytes := length_encode_of_all_isSpace blank
        simp [indented, InputLine.dropBack, line, encode_take_of_all_isSpace blank, bytes]
        omega
      · simpa [indented] using plain

/-- Deleting forward takes the first character on the right, and keeps the left side. -/
lemma deleteForward?_line : c.line.deleteForward? =
    if c.right.isEmpty then none else some (line { c with right := c.right.tail }) := by
  unfold InputLine.deleteForward?
  rw [move?_line]
  cases right : c.right with
  | nil => simp [move?, right]
  | cons first rest =>
    have moved : c.move? (-1) = some { c with left := c.left ++ [first], right := rest } := by
      simp [move?, right]
    rw [moved]
    simp [backspace_line, backspace]

/-- An edit of the bytes does to the characters what it is meant to do, and answers the same. -/
theorem edit_line (request : LineEdit) : c.line.edit request = (c.edit request).map id line := by
  cases request with
  | insert text => simp [InputLine.edit, edit, line, InputLine.insert]
  | set text => simp [InputLine.edit, edit, line, InputLine.set]
  | clear => simp [InputLine.edit, edit, line, InputLine.clear, InputLine.set]
  | home => simp [InputLine.edit, edit, line, InputLine.home, InputLine.text]
  | toEnd => simp [InputLine.edit, edit, line, InputLine.toEnd, InputLine.text]
  | move distance =>
    simp only [InputLine.edit, edit, InputLine.move, move?_line]
    cases c.move? distance <;> simp
  | backspace tabs => simp [InputLine.edit, edit, backspace_line]
  | deleteForward =>
    simp only [InputLine.edit, edit, InputLine.deleteForward, deleteForward?_line]
    cases right : c.right <;> simp [line, right]
  | cutToEnd => simp [InputLine.edit, edit, line, InputLine.cutToEnd]
  | yank => simp [InputLine.edit, edit, line, InputLine.yank, InputLine.insert]
  | clearToStart => simp [InputLine.edit, edit, line, InputLine.clearToStart]

/-- Whatever is asked of an empty line one after the other, the answers are those of its characters, its
text is the characters on both sides of the cursor, and the cursor stands between the two. -/
theorem answers_of_characters (tabLength : Int) (requests : List LineEdit) :
    let (answers, line) := answerAll InputLine.edit requests { tabLength }
    let (meant, chars) := answerAll edit requests { tabLength }
    answers = meant ∧ line.text = encode (chars.left ++ chars.right) ∧
      line.offset = (encode chars.right).length ∧ line.cut = encode chars.cut := by
  have start : ({ tabLength } : InputLine) = line { tabLength } := rfl
  rw [start, answerAll_map edit_line requests { tabLength }]
  exact ⟨rfl, (Utf8.encode_append _ _).symm, rfl, rfl⟩

/-- Behind two characters of two and three bytes the tab stops are no matter; a line of white space goes
back to its last one. -/
example : (answerAll InputLine.edit
    [.insert ['é', '€'], .move 1, .backspace true, .deleteForward, .insert [' ', ' ', '\t', ' ', ' '],
      .backspace true, .move 5] { tabLength := 4 }) =
    ([.done, .possible true, .removed 1, .possible true, .done, .removed 1, .possible false],
      { before := bytes "  \t ", tabLength := 4 }) := by
  decide +kernel

end CharLine
end CalcShell
