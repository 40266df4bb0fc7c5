import CalcShell.Proofs.Text.Styled
import CalcShell.Proofs.Text.Utf8
import Mathlib.Tactic.SplitIfs

/-! The cells of styled lines. A line that is cut into runs between characters shows one character in
each cell, and wrapping it only deals the cells out to rows. -/
namespace CalcShell

namespace Utf8

lemma chunks_append {front back : Bytes} (valid : IsValid front) (aligned : IsAligned back) :
    chunks (front ++ back) = chunks front ++ chunks back := by
  obtain ⟨chars, rfl⟩ := valid
  rw [chunks_encode_append chars aligned, chunks_encode]

end Utf8

/-- The run is a single character. -/
def Run.IsCell (run : Run) : Prop := ∃ c, run.text = String.utf8EncodeChar c

lemma Run.map_text_cells (run : Run) : run.cells.map Run.text = Utf8.chunks run.text := by
  rw [Run.cells, List.map_map]
  exact List.map_id _

lemma Run.cells_append {run : Run} {back : Bytes} (valid : Utf8.IsValid run.text)
    (aligned : Utf8.IsAligned back) :
    ({ run with text := run.text ++ back } : Run).cells =
      run.cells ++ ({ run with text := back } : Run).cells := by
  rw [Run.cells, Utf8.chunks_append valid aligned, List.map_append]
  rfl

namespace StyledLine

/-- Every run consists of whole characters. -/
def IsValid (line : StyledLine) : Prop := ∀ run ∈ line, Utf8.IsValid run.text

lemma isValid_nil : IsValid [] := nofun

lemma isValid_cons {run : Run} {line : StyledLine} :
    IsValid (run :: line) ↔ Utf8.IsValid run.text ∧ IsValid line := List.forall_mem_cons

lemma isValid_append {front back : StyledLine} :
    IsValid (front ++ back) ↔ front.IsValid ∧ back.IsValid := List.forall_mem_append

lemma IsValid.plain {line : StyledLine} (valid : line.IsValid) : Utf8.IsValid line.plain := by
  induction line with
  | nil => exact Utf8.isValid_nil
  | cons run line ih =>
    obtain ⟨first, rest⟩ := isValid_cons.1 valid
    exact first.append (ih rest)

lemma isValid_ofText {text : Bytes} (valid : Utf8.IsValid text) (style : Style) :
    (ofText text style).IsValid := by
  unfold ofText
  split
  · exact isValid_nil
  · exact isValid_cons.2 ⟨valid, isValid_nil⟩

/-- The texts of the cells are the characters of the line. -/
lemma map_text_cells {line : StyledLine} (valid : line.IsValid) :
    line.cells.map Run.text = Utf8.chunks line.plain := by
  induction line with
  | nil => simp [cells]
  | cons run line ih =>
    obtain ⟨first, rest⟩ := isValid_cons.1 valid
    rw [plain_cons, Utf8.chunks_append first rest.plain.isAligned, ← ih rest,
      ← Run.map_text_cells, ← List.map_append]
    rfl

lemma isCell_of_mem_cells {line : StyledLine} (valid : line.IsValid) {cell : Run}
    (mem : cell ∈ line.cells) : cell.IsCell := by
  obtain ⟨run, inLine, inRun⟩ := List.mem_flatMap.1 mem
  obtain ⟨chars, same⟩ := valid run inLine
  rw [Run.cells, ← same, Utf8.chunks_encode] at inRun
  obtain ⟨text, isChar, rfl⟩ := List.mem_map.1 inRun
  obtain ⟨c, -, rfl⟩ := List.mem_map.1 isChar
  exact ⟨c, rfl⟩

/-! ### Rows -/

lemma cells_cons (run : Run) (line : StyledLine) : cells (run :: line) = run.cells ++ cells line := rfl

/-- Joining runs of one format moves no cell. -/
lemma cells_merge {line : StyledLine} (valid : line.IsValid) :
    cells (merge line) = cells line ∧ IsValid (merge line) := by
  induction line with
  | nil => exact ⟨rfl, isValid_nil⟩
  | cons run line ih =>
    obtain ⟨first, rest⟩ := isValid_cons.1 valid
    obtain ⟨same, merged⟩ := ih rest
    rw [merge, cells_cons, ← same]
    split
    · rename_i empty
      refine ⟨?_, merged⟩
      rw [Run.cells, List.isEmpty_iff.1 empty, Utf8.chunks_nil]
      rfl
    · split
      · rename_i next more isMerged
        rw [isMerged] at merged ⊢
        obtain ⟨second, others⟩ := isValid_cons.1 merged
        split
        · rename_i format
          rw [Run.sameFormat, Bool.and_eq_true, beq_iff_eq, beq_iff_eq] at format
          have joined : ({ run with text := run.text ++ next.text } : Run).cells =
              run.cells ++ next.cells := by
            rw [Run.cells_append first second.isAligned, format.1, format.2]
          refine ⟨?_, isValid_cons.2 ⟨first.append second, others⟩⟩
          rw [cells_cons, joined, cells_cons, List.append_assoc]
        · exact ⟨rfl, isValid_cons.2 ⟨first, merged⟩⟩
      · rename_i isMerged
        rw [isMerged]
        exact ⟨rfl, isValid_cons.2 ⟨first, isValid_nil⟩⟩

lemma isValid_of_isCell {row : List Run} (single : ∀ cell ∈ row, cell.IsCell) : IsValid row := by
  intro cell mem
  obtain ⟨c, same⟩ := single cell mem
  exact ⟨[c], by simp [same]⟩

/-- A row shows the cells that were dealt to it. -/
lemma cells_merge_of_isCell {row : List Run} (single : ∀ cell ∈ row, cell.IsCell) :
    cells (merge row) = row := by
  rw [(cells_merge (isValid_of_isCell single)).1]
  induction row with
  | nil => rfl
  | cons cell row ih =>
    obtain ⟨⟨c, same⟩, rest⟩ := List.forall_mem_cons.1 single
    have alone : Utf8.chunks cell.text = [cell.text] := by
      simpa [same] using Utf8.chunks_encode [c]
    rw [cells_cons, ih rest, Run.cells, alone]
    rfl

lemma fullRows_of_ne_nil {k : Nat} {cells : List Run} (some : cells ≠ []) :
    fullRows k cells = cells.take (k + 1) :: fullRows k (cells.drop (k + 1)) := by
  cases cells with
  | nil => contradiction
  | cons cell rest => rw [fullRows, List.take_succ_cons, List.drop_succ_cons]

lemma getElem?_fullRows (k : Nat) (cells : List Run) (i : Nat) :
    (fullRows k cells)[i]? =
      if i * (k + 1) < cells.length then some ((cells.drop (i * (k + 1))).take (k + 1)) else none := by
  by_cases none : cells = []
  · simp [none, fullRows]
  · rw [fullRows_of_ne_nil none]
    induction i generalizing cells with
    | zero => simp [List.length_pos_iff.2 none]
    | succ i ih =>
      have next : (i + 1) * (k + 1) = (k + 1) + i * (k + 1) := by rw [Nat.succ_mul, Nat.add_comm]
      rw [List.getElem?_cons_succ, next]
      by_cases last : cells.drop (k + 1) = []
      · have short := List.drop_eq_nil_iff.1 last
        rw [last, if_neg (by omega), fullRows]
        rfl
      · rw [fullRows_of_ne_nil last, ih _ last, List.drop_drop, List.length_drop]
        simp only [Nat.lt_sub_iff_add_lt']

/-- Row `i` of a wrapped line. -/
lemma getElem?_wrap {line : StyledLine} {cols : Nat} (positive : 0 < cols) (i : Nat) :
    (line.wrap cols)[i]? =
      if i = 0 ∨ i * cols < line.cells.length then
        some (merge ((line.cells.drop (i * cols)).take cols))
      else none := by
  cases cols with
  | zero => contradiction
  | succ k =>
    rw [wrap, Nat.sub_zero, layRows, List.getElem?_map]
    cases i with
    | zero => simp
    | succ i =>
      have next : (i + 1) * (k + 1) = (k + 1) + i * (k + 1) := by rw [Nat.succ_mul, Nat.add_comm]
      rw [List.getElem?_cons_succ, getElem?_fullRows, List.drop_drop, List.length_drop, next]
      simp only [Nat.lt_sub_iff_add_lt', Nat.add_one_ne_zero, false_or]
      split_ifs <;> rfl

/-! ### Highlights -/

lemma IsValid.snoc {line : StyledLine} {run : Run} (valid : line.IsValid)
    (last : Utf8.IsValid run.text) : (line.snoc run).IsValid := by
  unfold StyledLine.snoc
  split
  · exact valid
  · split
    · rename_i end_ isEnd
      obtain ⟨front, rfl⟩ := List.getLast?_eq_some_iff.1 isEnd
      obtain ⟨before, single⟩ := isValid_append.1 valid
      split
      · rw [List.dropLast_concat]
        exact isValid_append.2
          ⟨before, isValid_cons.2 ⟨(isValid_cons.1 single).1.append last, isValid_nil⟩⟩
      · exact isValid_append.2 ⟨valid, isValid_cons.2 ⟨last, isValid_nil⟩⟩
    · exact isValid_cons.2 ⟨last, isValid_nil⟩

/-- Highlighting an ASCII character cuts no other one. -/
lemma IsValid.highlight {line : StyledLine} {column : Nat} {byte : UInt8} (valid : line.IsValid)
    (there : line.plain[column]? = some byte) (ascii : byte < 0x80) (style : Style) :
    (line.highlight column style).IsValid := by
  obtain ⟨front, run, left, right, back, rfl, text, -, located⟩ := locate?_of_getElem? there
  obtain ⟨before, rest⟩ := isValid_append.1 valid
  obtain ⟨here, behind⟩ := isValid_cons.1 rest
  rw [text] at here
  obtain ⟨hleft, hright⟩ := here.around ascii
  have single : Utf8.IsValid [byte] := Utf8.isValid_of_ascii (List.forall_mem_singleton.2 ascii)
  rw [StyledLine.highlight, located]
  dsimp only
  rw [text, List.take_left, List.drop_left, List.drop_append]
  simp only [List.take_succ_cons, List.take_zero, Nat.add_sub_cancel_left, List.drop_succ_cons,
    List.drop_zero, List.drop_eq_nil_of_le (Nat.le_succ left.length), List.nil_append]
  exact isValid_append.2
    ⟨(isValid_append.2 ⟨before.snoc hleft, isValid_cons.2 ⟨single, isValid_nil⟩⟩).snoc hright, behind⟩

/-- Highlighting leaves the text alone. -/
lemma plain_highlight {line : StyledLine} {column : Nat} {byte : UInt8}
    (there : line.plain[column]? = some byte) (style : Style) :
    (line.highlight column style).plain = line.plain := by
  rw [← map_byte_look, look_highlight there, List.map_set, map_byte_look]
  obtain ⟨inside, rfl⟩ := List.getElem?_eq_some_iff.1 there
  exact List.set_getElem_self inside

end StyledLine
end CalcShell
