import CalcShell.Text.Styled
import Mathlib.Tactic.Lemma

/-! What a styled line looks like byte by byte, however it is cut into runs. Highlighting changes the
looks of one byte. -/
namespace CalcShell

/-- What one byte looks like. -/
structure Look where
  byte : UInt8
  style : Style
  bold : Bool
deriving DecidableEq, Repr

namespace Run

def look (run : Run) : List Look := run.text.map ({ byte := ·, style := run.style, bold := run.bold })

lemma length_look (run : Run) : run.look.length = run.text.length := List.length_map _

lemma look_append (run : Run) (front back : Bytes) : ({ run with text := front ++ back } : Run).look =
    ({ run with text := front } : Run).look ++ ({ run with text := back } : Run).look :=
  List.map_append

end Run

namespace StyledLine

def look (line : StyledLine) : List Look := line.flatMap Run.look

@[simp] lemma look_nil : look [] = [] := rfl

@[simp] lemma look_cons (run : Run) (line : StyledLine) : look (run :: line) = run.look ++ look line :=
  rfl

@[simp] lemma look_append (front back : StyledLine) : look (front ++ back) = look front ++ look back :=
  List.flatMap_append

lemma plain_flatten (lines : List StyledLine) : plain lines.flatten = lines.flatMap plain := by
  induction lines with
  | nil => rfl
  | cons line lines ih => rw [List.flatten_cons, plain_append, ih, List.flatMap_cons]

lemma map_byte_look (line : StyledLine) : line.look.map Look.byte = line.plain := by
  induction line with
  | nil => rfl
  | cons run line ih =>
    rw [look_cons, List.map_append, ih, plain_cons, Run.look, List.map_map]
    congr 1
    exact List.map_id _

lemma look_snoc (line : StyledLine) (run : Run) : (line.snoc run).look = line.look ++ run.look := by
  unfold snoc
  split
  · rename_i empty
    rw [Run.look, List.isEmpty_iff.1 empty, List.map_nil, List.append_nil]
  · split
    · rename_i last isLast
      obtain ⟨front, rfl⟩ := List.getLast?_eq_some_iff.1 isLast
      split
      · rename_i same
        rw [Run.sameFormat, Bool.and_eq_true, beq_iff_eq, beq_iff_eq] at same
        have joined : ({ last with text := last.text ++ run.text } : Run).look =
            last.look ++ run.look := by
          rw [Run.look_append, Run.look, Run.look, Run.look, same.1, same.2]
        simp [joined]
      · simp
    · rename_i none
      rw [List.getLast?_eq_none_iff.1 none]
      simp

/-- Joining runs of one format changes the look of no byte. -/
lemma look_merge (line : StyledLine) : (merge line).look = line.look := by
  induction line with
  | nil => rfl
  | cons run line ih =>
    rw [merge, look_cons, ← ih]
    split
    · rename_i empty
      rw [Run.look, List.isEmpty_iff.1 empty]
      rfl
    · split
      · rename_i next more isMerged
        rw [isMerged]
        split
        · rename_i same
          rw [Run.sameFormat, Bool.and_eq_true, beq_iff_eq, beq_iff_eq] at same
          have joined : ({ run with text := run.text ++ next.text } : Run).look =
              run.look ++ next.look := by
            rw [Run.look_append, Run.look, Run.look, Run.look, same.1, same.2]
          rw [look_cons, look_cons, joined, List.append_assoc]
        · rfl
      · rename_i isMerged
        rw [isMerged]
        rfl

lemma plain_merge (line : StyledLine) : plain (merge line) = plain line := by
  rw [← map_byte_look, look_merge, map_byte_look]

lemma length_look (line : StyledLine) : line.look.length = line.plain.length := by
  rw [← map_byte_look, List.length_map]

/-- The run with a byte, cut at the byte. -/
lemma locate?_of_getElem? {line : StyledLine} {column : Nat} {byte : UInt8}
    (there : line.plain[column]? = some byte) :
    ∃ (front : StyledLine) (run : Run) (left right : Bytes) (back : StyledLine),
      line = front ++ run :: back ∧ run.text = left ++ byte :: right ∧
      front.plain.length + left.length = column ∧
      line.locate? column = some (front, run, left.length, back) := by
  induction line generalizing column with
  | nil => cases there
  | cons run rest ih =>
    rw [plain_cons] at there
    rw [locate?]
    split
    · rename_i here
      rw [List.getElem?_append_left here] at there
      obtain ⟨_, rfl⟩ := List.getElem?_eq_some_iff.1 there
      refine ⟨[], run, run.text.take column, run.text.drop (column + 1), rest, rfl, ?_, ?_, ?_⟩
      · rw [← List.drop_eq_getElem_cons here, List.take_append_drop]
      · rw [List.length_take_of_le (Nat.le_of_lt here)]
        exact Nat.zero_add column
      · rw [List.length_take_of_le (Nat.le_of_lt here)]
    · rename_i beyond
      rw [List.getElem?_append_right (Nat.le_of_not_lt beyond)] at there
      obtain ⟨front, found, left, right, back, split, text, length, located⟩ := ih there
      refine ⟨run :: front, found, left, right, back, by rw [split]; rfl, text, ?_, ?_⟩
      · rw [plain_cons, List.length_append]
        omega
      · rw [located]
        rfl

/-- Only the highlighted byte looks different. -/
theorem look_highlight {line : StyledLine} {column : Nat} {byte : UInt8}
    (there : line.plain[column]? = some byte) (style : Style) :
    (line.highlight column style).look = line.look.set column { byte, style, bold := true } := by
  obtain ⟨front, run, left, right, back, rfl, text, rfl, located⟩ := locate?_of_getElem? there
  have whole : run.look = ({ run with text := left } : Run).look ++
      { byte, style := run.style, bold := run.bold } :: ({ run with text := right } : Run).look := by
    rw [Run.look, text, List.map_append]
    rfl
  have place : front.plain.length + left.length =
      (front.look ++ ({ run with text := left } : Run).look).length := by
    rw [List.length_append, length_look, Run.length_look]
  have marked : run.text.take left.length = left ∧ (run.text.drop left.length).take 1 = [byte] ∧
      run.text.drop (left.length + 1) = right := by
    rw [text]
    simp
  calc ((front ++ run :: back).highlight (front.plain.length + left.length) style).look
    _ = front.look ++ ({ run with text := left } : Run).look ++
          { byte, style, bold := true } ::
            (({ run with text := right } : Run).look ++ back.look) := by
        rw [highlight, located]
        dsimp only
        rw [marked.1, marked.2.1, marked.2.2]
        simp [look_snoc, Run.look]
    _ = (front.look ++ ({ run with text := left } : Run).look ++
          { byte, style := run.style, bold := run.bold } ::
            (({ run with text := right } : Run).look ++ back.look)).set
          (front.plain.length + left.length) { byte, style, bold := true } := by
        rw [place, List.set_append_right _ _ (Nat.le_refl _), Nat.sub_self, List.set_cons_zero]
    _ = (front ++ run :: back).look.set (front.plain.length + left.length)
          { byte, style, bold := true } := by
        rw [look_append, look_cons, whole]
        simp only [List.append_assoc, List.cons_append]

end StyledLine
end CalcShell
