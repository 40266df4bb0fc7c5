import CalcShell.Editing.Line
import CalcShell.Proofs.Text.Utf8

/-! Moving the cursor over valid UTF-8 goes by characters. -/
namespace CalcShell.InputLine
open CalcShell.Utf8 (encode)

/-! ### The text stays -/

lemma text_left? {n : Nat} {line moved : InputLine} (h : left? n line = some moved) :
    moved.text = line.text := by
  induction n generalizing line with
  | zero =>
    cases h
    rfl
  | succ n ih =>
    unfold left? at h
    split at h
    · cases h
    · rw [ih h]
      simp only [text]
      rw [← List.append_assoc, List.take_append_drop]

lemma text_right? {n : Nat} {line moved : InputLine} (h : right? n line = some moved) :
    moved.text = line.text := by
  induction n generalizing line with
  | zero =>
    cases h
    rfl
  | succ n ih =>
    unfold right? at h
    split at h
    · cases h
    · rw [ih h]
      simp only [text]
      rw [List.append_assoc, List.take_append_drop]

@[simp] theorem text_move (line : InputLine) (distance : Int) :
    (line.move distance).text = line.text := by
  unfold move
  cases moved : line.move? distance with
  | none => rfl
  | some moved' =>
    unfold move? at moved
    split at moved
    · exact text_left? moved
    · exact text_right? moved

/-! ### Where a motion leads -/

lemma left?_succ_encode (n : Nat) {line : InputLine} {front : List Char} {last : Char}
    (before : line.before = encode front ++ String.utf8EncodeChar last) :
    left? (n + 1) line = left? n { line with
      before := encode front, after := String.utf8EncodeChar last ++ line.after } := by
  have length : line.backLength = (String.utf8EncodeChar last).length := by
    rw [backLength, before, Utf8.lastLength_append_encodeChar]
  have keep : line.before.length - line.backLength = (encode front).length := by
    rw [length, before, List.length_append, Nat.add_sub_cancel]
  have full : line.before.isEmpty = false := by
    rw [before, List.isEmpty_eq_false_iff]
    exact List.append_ne_nil_of_right_ne_nil _ String.utf8EncodeChar_ne_nil
  rw [left?, full, if_neg Bool.false_ne_true]
  dsimp only
  rw [keep, before, List.take_left, List.drop_left]

/-- Moving left takes as many characters to the right side, if there are enough of them. -/
theorem left?_encode (n : Nat) (chars : List Char) (line : InputLine)
    (before : line.before = encode chars) : left? n line =
      if n ≤ chars.length then
        some { line with
          before := encode (chars.take (chars.length - n))
          after := encode (chars.drop (chars.length - n)) ++ line.after }
      else none := by
  induction n generalizing chars line with
  | zero => simp [left?, ← before]
  | succ n ih =>
    rcases chars.eq_nil_or_concat with rfl | ⟨front, last, rfl⟩
    · simp [left?, before]
    · rw [List.concat_eq_append] at before ⊢
      have cut : (front ++ [last]).length - (n + 1) = front.length - n := by simp
      have fits : n + 1 ≤ (front ++ [last]).length ↔ n ≤ front.length := by simp
      have ends : line.before = encode front ++ String.utf8EncodeChar last := by simp [before]
      rw [left?_succ_encode n ends, ih front _ rfl, cut,
        List.take_append_of_le_length (Nat.sub_le _ _),
        List.drop_append_of_le_length (Nat.sub_le _ _)]
      simp only [fits, Utf8.encode_append, Utf8.encode_cons, Utf8.encode_nil, List.append_nil,
        List.append_assoc]

lemma right?_succ_encode (n : Nat) {line : InputLine} {first : Char} {rest : List Char}
    (after : line.after = String.utf8EncodeChar first ++ encode rest) :
    right? (n + 1) line = right? n { line with
      before := line.before ++ String.utf8EncodeChar first, after := encode rest } := by
  have full : line.after.isEmpty = false := by
    rw [after, List.isEmpty_eq_false_iff]
    exact List.append_ne_nil_of_left_ne_nil String.utf8EncodeChar_ne_nil _
  rw [right?, full, if_neg Bool.false_ne_true]
  dsimp only
  rw [after, Utf8.nextLength_encodeChar_append first (Utf8.isAligned_encode rest), List.take_left,
    List.drop_left]

/-- Moving right takes as many characters to the left side, if there are enough of them. -/
theorem right?_encode (n : Nat) (chars : List Char) (line : InputLine)
    (after : line.after = encode chars) : right? n line =
      if n ≤ chars.length then
        some { line with
          before := line.before ++ encode (chars.take n)
          after := encode (chars.drop n) }
      else none := by
  induction n generalizing chars line with
  | zero => simp [right?, ← after]
  | succ n ih =>
    cases chars with
    | nil => simp [right?, after]
    | cons first rest =>
      rw [right?_succ_encode n after, ih rest _ rfl]
      simp

lemma right?_succ_set (n : Nat) (line : InputLine) (text : Bytes) :
    right? (n + 1) (line.set text) = none := rfl

/-- Where a motion by any distance from the end of a text leads. -/
lemma offset_move_set (line : InputLine) (chars : List Char) (distance : Int) :
    ((line.set (encode chars)).move distance).offset =
      if 0 ≤ distance ∧ distance ≤ chars.length then
        (encode (chars.drop (chars.length - distance.natAbs))).length
      else 0 := by
  unfold move move?
  rcases Int.lt_trichotomy distance 0 with h | rfl | h
  · obtain ⟨n, hn⟩ : ∃ n, distance.natAbs = n + 1 := ⟨distance.natAbs - 1, by omega⟩
    rw [if_neg (by omega), if_neg (by omega), hn, right?_succ_set]
    rfl
  · simp [right?, offset, set]
  · rw [if_pos h, left?_encode _ chars _ rfl]
    have fits : distance.natAbs ≤ chars.length ↔ 0 ≤ distance ∧ distance ≤ chars.length := by omega
    by_cases hd : distance.natAbs ≤ chars.length
    · rw [if_pos hd, if_pos (fits.1 hd)]
      simp [offset, set]
    · rw [if_neg hd, if_neg (mt fits.2 hd)]
      rfl

/-- A motion from the end of a text leads back to a place in it just when it goes by as many
characters as there are to its right. -/
theorem offset_move_set_eq_iff (line : InputLine) (left right : List Char) {distance : Int}
    (atEnd : right = [] → distance = 0) :
    ((line.set (encode (left ++ right))).move distance).offset = (encode right).length ↔
      right.length = distance := by
  have right_eq : encode right = encode ((left ++ right).drop left.length) := by
    rw [List.drop_left]
  rw [offset_move_set]
  split
  · rename_i h
    rw [right_eq, Utf8.length_encode_drop_inj (Nat.sub_le _ _) (by simp)]
    simp only [List.length_append] at h ⊢
    omega
  · rename_i h
    rw [List.length_append] at h
    constructor
    · intro none
      have := Utf8.length_le_length_encode right
      have := atEnd (List.length_eq_zero_iff.1 (by omega))
      omega
    · intro same
      omega

end CalcShell.InputLine
