import CalcShell.Proofs.Text.Cells
import Mathlib.Data.List.Chain
import Mathlib.Data.List.Induction

/-! The rows of a wrapped line. The characters of the line are dealt out to rows in order, each row but the last
one is full, and neighbours of one format share a run. -/
namespace CalcShell

/-- A character, and how it is shown. -/
structure Glyph where
  char : Char
  style : Style
  bold : Bool
deriving DecidableEq, Repr

namespace Utf8

/-- The characters of a text; there are none if it is no valid UTF-8. -/
def decode (text : Bytes) : List Char := (text.toByteArray.utf8Decode?.getD #[]).toList

@[simp] lemma decode_encode (chars : List Char) : decode (encode chars) = chars := by
  have whole : (encode chars).toByteArray.utf8Decode? = some chars.toArray := List.utf8Decode?_utf8Encode
  rw [decode, whole]
  rfl

end Utf8

namespace Run

def glyphs (run : Run) : List Glyph :=
  (Utf8.decode run.text).map ({ char := ·, style := run.style, bold := run.bold })

lemma cells_of_encode {run : Run} {chars : List Char} (same : Utf8.encode chars = run.text) :
    run.cells = chars.map fun c => { run with text := String.utf8EncodeChar c } := by
  rw [Run.cells, ← same, Utf8.chunks_encode, List.map_map]
  rfl

lemma glyphs_of_encode {run : Run} {chars : List Char} (same : Utf8.encode chars = run.text) :
    run.glyphs = chars.map ({ char := ·, style := run.style, bold := run.bold }) := by
  rw [glyphs, ← same, Utf8.decode_encode]

/-- A cell shows one character. -/
lemma IsCell.length_glyphs {cell : Run} (single : cell.IsCell) : cell.glyphs.length = 1 := by
  obtain ⟨c, same⟩ := single
  have encoded : Utf8.encode [c] = cell.text := by simp [same]
  rw [glyphs_of_encode encoded]
  rfl

end Run

namespace StyledLine

def glyphs (line : StyledLine) : List Glyph := line.flatMap Run.glyphs

lemma glyphs_flatten (rows : List StyledLine) : glyphs rows.flatten = rows.flatMap glyphs := by
  induction rows with
  | nil => rfl
  | cons row rows ih =>
    rw [List.flatten_cons, glyphs, List.flatMap_append, List.flatMap_cons, ← ih]
    rfl

lemma glyphs_cells {line : StyledLine} (valid : line.IsValid) : glyphs line.cells = line.glyphs := by
  have each (run : Run) (chars : List Char) (same : Utf8.encode chars = run.text) :
      glyphs run.cells = run.glyphs := by
    have single (c : Char) : ({ run with text := String.utf8EncodeChar c } : Run).glyphs =
        [{ char := c, style := run.style, bold := run.bold }] := by
      have encoded : Utf8.encode [c] = ({ run with text := String.utf8EncodeChar c } : Run).text := by simp
      rw [Run.glyphs_of_encode encoded]
      rfl
    rw [Run.cells_of_encode same, Run.glyphs_of_encode same, glyphs, List.flatMap_map, List.map_eq_flatMap]
    exact List.flatMap_congr fun c _ => single c
  induction line with
  | nil => rfl
  | cons run line ih =>
    obtain ⟨⟨chars, same⟩, rest⟩ := isValid_cons.1 valid
    rw [cells_cons, glyphs, List.flatMap_append]
    exact congrArg₂ (· ++ ·) (each run chars same) (ih rest)

/-- Joining runs of one format changes no character. -/
lemma glyphs_merge {line : StyledLine} (valid : line.IsValid) : glyphs (merge line) = line.glyphs := by
  obtain ⟨same, merged⟩ := cells_merge valid
  rw [← glyphs_cells merged, same, glyphs_cells valid]

lemma length_glyphs_of_isCell {row : List Run} (single : ∀ cell ∈ row, cell.IsCell) :
    (glyphs row).length = row.length := by
  induction row with
  | nil => rfl
  | cons cell row ih =>
    obtain ⟨first, rest⟩ := List.forall_mem_cons.1 single
    rw [glyphs, List.flatMap_cons, List.length_append, first.length_glyphs, List.length_cons, ← ih rest]
    exact Nat.add_comm _ _

/-! ### Runs of a row -/

/-- No run is empty, and neighbours differ in their formats. -/
structure IsMerged (line : StyledLine) : Prop where
  filled : ∀ run ∈ line, run.text ≠ []
  parted : line.IsChain fun a b => ¬(a.style = b.style ∧ a.bold = b.bold)

lemma sameFormat_iff (a b : Run) : a.sameFormat b = true ↔ a.style = b.style ∧ a.bold = b.bold := by
  rw [Run.sameFormat, Bool.and_eq_true, beq_iff_eq, beq_iff_eq]

lemma isMerged_merge (line : StyledLine) : (merge line).IsMerged := by
  induction line with
  | nil => exact ⟨nofun, .nil⟩
  | cons run line ih =>
    rw [merge]
    split
    · exact ih
    · rename_i some
      have some : run.text ≠ [] := by simpa using some
      split
      · rename_i next more isMerged
        rw [isMerged] at ih
        obtain ⟨-, filled⟩ := List.forall_mem_cons.1 ih.filled
        split
        · rename_i same
          obtain ⟨style, bold⟩ := (sameFormat_iff _ _).1 same
          refine ⟨List.forall_mem_cons.2 ⟨by simp [some], filled⟩, ?_⟩
          have parted := ih.parted
          rw [List.isChain_cons] at parted ⊢
          rw [style, bold]
          exact parted
        · rename_i differ
          rw [sameFormat_iff] at differ
          exact ⟨List.forall_mem_cons.2 ⟨some, ih.filled⟩, List.isChain_cons_cons.2 ⟨differ, ih.parted⟩⟩
      · exact ⟨List.forall_mem_singleton.2 some, .singleton run⟩

/-! ### Dealing cells out -/

lemma flatten_fullRows (k : Nat) (cells : List Run) : (fullRows k cells).flatten = cells := by
  induction cells using fullRows.induct k with
  | case1 => rw [fullRows, List.flatten_nil]
  | case2 cell rest ih => rw [fullRows, List.flatten_cons, ih, List.cons_append, List.take_append_drop]

lemma flatten_layRows (k first : Nat) (cells : List Run) : (layRows k first cells).flatten = cells := by
  rw [layRows, List.flatten_cons, flatten_fullRows, List.take_append_drop]

/-- How many cells row `i` has room for. -/
def room (width start i : Nat) : Nat := if i = 0 then width - start else width

/-- Every row behind which another one begins is full. -/
lemma length_fullRows {k : Nat} {cells row : List Run} {i : Nat} (isRow : (fullRows k cells)[i]? = some row) :
    0 < row.length ∧ row.length ≤ k + 1 ∧ (i + 1 < (fullRows k cells).length → row.length = k + 1) := by
  rw [getElem?_fullRows, Option.ite_none_right_eq_some] at isRow
  obtain ⟨inside, isRow⟩ := isRow
  obtain rfl := Option.some.inj isRow
  rw [List.length_take, List.length_drop]
  refine ⟨by omega, by omega, fun more => ?_⟩
  have next : (i + 1) * (k + 1) < cells.length := by
    by_contra last
    have none := getElem?_fullRows k cells (i + 1)
    rw [if_neg last, List.getElem?_eq_none_iff] at none
    omega
  rw [Nat.succ_mul] at next
  omega

lemma length_layRows {k start : Nat} {cells row : List Run} {i : Nat}
    (isRow : (layRows k (k + 1 - start) cells)[i]? = some row) :
    row.length ≤ room (k + 1) start i ∧
      (i + 1 < (layRows k (k + 1 - start) cells).length → row.length = room (k + 1) start i) ∧
      (0 < i → row ≠ []) := by
  rw [layRows, List.length_cons]
  cases i with
  | zero =>
    obtain rfl := Option.some.inj isRow
    rw [room, if_pos rfl, List.length_take]
    refine ⟨by omega, fun more => ?_, fun behind => absurd behind (Nat.lt_irrefl 0)⟩
    have behind : cells.drop (k + 1 - start) ≠ [] := by
      intro none
      rw [none, fullRows] at more
      simp at more
    have := List.length_pos_iff.2 behind
    rw [List.length_drop] at this
    omega
  | succ i =>
    obtain ⟨some, fits, full⟩ := length_fullRows (show (fullRows k _)[i]? = some row from isRow)
    rw [room, if_neg (Nat.succ_ne_zero i)]
    exact ⟨fits, fun more => full (by omega), fun _ => List.length_pos_iff.1 some⟩

lemma isCell_of_mem_layRows {line : StyledLine} (valid : line.IsValid) {k first : Nat} {row : List Run}
    (dealt : row ∈ layRows k first line.cells) : ∀ cell ∈ row, cell.IsCell := by
  intro cell mem
  refine isCell_of_mem_cells valid ?_
  rw [← flatten_layRows k first line.cells]
  exact List.mem_flatten_of_mem dealt mem

/-- Wrapping a line only puts row breaks between its characters. There always is a row. Each row but the last one
is full, where the first one goes from the column at which the line starts; only a first row can be empty, and
with another one below it only if the line starts behind the last column. No run of a row is empty, and no two
neighbours have one format. -/
theorem wrap_inserts_breaks {line : StyledLine} (valid : line.IsValid) {width : Nat} (positive : 0 < width)
    (start : Nat) :
    let rows := line.wrap width start
    rows ≠ [] ∧ rows.flatMap glyphs = line.glyphs ∧ (∀ row ∈ rows, row.IsValid ∧ row.IsMerged) ∧
      ∀ (i : Nat) (row : StyledLine), rows[i]? = some row →
        row.glyphs.length ≤ room width start i ∧
        (i + 1 < rows.length → row.glyphs.length = room width start i) ∧
        (row = [] → i = 0 ∧ (rows.length = 1 ∨ width ≤ start)) := by
  intro rows
  obtain ⟨k, rfl⟩ := Nat.exists_eq_add_one.2 positive
  have single (cells : List Run) (dealt : cells ∈ layRows k (k + 1 - start) line.cells) :
      ∀ cell ∈ cells, cell.IsCell := isCell_of_mem_layRows valid dealt
  have same (cells : List Run) (dealt : cells ∈ layRows k (k + 1 - start) line.cells) :
      glyphs (merge cells) = glyphs cells := glyphs_merge (isValid_of_isCell (single cells dealt))
  have length : rows.length = (layRows k (k + 1 - start) line.cells).length := List.length_map _
  refine ⟨List.cons_ne_nil _ _, ?_, fun row mem => ?_, fun i row isRow => ?_⟩
  · calc rows.flatMap glyphs
      _ = (layRows k (k + 1 - start) line.cells).flatMap glyphs := by
          change ((layRows k (k + 1 - start) line.cells).map merge).flatMap glyphs = _
          rw [List.flatMap_map]
          exact List.flatMap_congr same
      _ = line.glyphs := by rw [← glyphs_flatten, flatten_layRows, glyphs_cells valid]
  · obtain ⟨cells, dealt, rfl⟩ := List.mem_map.1 mem
    exact ⟨(cells_merge (isValid_of_isCell (single cells dealt))).2, isMerged_merge cells⟩
  · obtain ⟨cells, isDealt, rfl⟩ := Option.map_eq_some_iff.1 ((List.getElem?_map ..).symm.trans isRow)
    have dealt := List.mem_of_getElem? isDealt
    obtain ⟨fits, full, filled⟩ := length_layRows isDealt
    rw [same cells dealt, length_glyphs_of_isCell (single cells dealt), length]
    refine ⟨fits, full, fun empty => ?_⟩
    have none : cells.length = 0 := by
      rw [← length_glyphs_of_isCell (single cells dealt), ← same cells dealt, empty]
      rfl
    have first : i = 0 := by
      by_contra behind
      exact filled (Nat.pos_of_ne_zero behind) (List.length_eq_zero_iff.1 none)
    refine ⟨first, ?_⟩
    rw [none, first, room, if_pos rfl] at full
    have := List.length_pos_of_mem dealt
    omega

theorem wrap_inserts_breaks_across_runs :
    let line : StyledLine := [{ style := .name, text := bytes "ab" }, { style := .name, text := bytes "é€" },
      { style := .number, text := bytes "1", bold := true }]
    let rows := line.wrap 3 2
    line.IsValid ∧ 0 < 3 ∧
      rows = [[{ style := .name, text := bytes "a" }], [{ style := .name, text := bytes "bé€" }],
        [{ style := .number, text := bytes "1", bold := true }]] ∧
      rows ≠ [] ∧ rows.flatMap glyphs = line.glyphs ∧ (∀ row ∈ rows, row.IsValid ∧ row.IsMerged) ∧
      ∀ (i : Nat) (row : StyledLine), rows[i]? = some row →
        row.glyphs.length ≤ room 3 2 i ∧ (i + 1 < rows.length → row.glyphs.length = room 3 2 i) ∧
        (row = [] → i = 0 ∧ (rows.length = 1 ∨ 3 ≤ 2)) := by
  intro line rows
  have valid : line.IsValid :=
    isValid_cons.2 ⟨Utf8.isValid_encode ['a', 'b'], isValid_cons.2 ⟨Utf8.isValid_encode ['é', '€'],
      isValid_cons.2 ⟨Utf8.isValid_encode ['1'], isValid_nil⟩⟩⟩
  exact ⟨valid, by decide, by decide +kernel, wrap_inserts_breaks valid (by decide) 2⟩

/-! ### The loop over the cells -/

/-- The row being filled, the rows above it, and the column of the next cell. -/
structure Filling where
  above : List StyledLine := []
  row : StyledLine := []
  column : Nat

namespace Filling

def rows (f : Filling) : List StyledLine := f.above ++ [f.row]

/-- Puts one more cell into the row, or into a new one if the row is full. -/
def put (width : Nat) (f : Filling) (cell : Run) : Filling :=
  if width ≤ f.column then { above := f.rows, row := snoc [] cell, column := 1 }
  else { f with row := f.row.snoc cell, column := f.column + 1 }

end Filling

lemma snoc_cons_cons (first second : Run) (line : StyledLine) (run : Run) :
    snoc (first :: second :: line) run = first :: snoc (second :: line) run := by
  unfold snoc
  rw [List.getLast?_cons_cons, List.dropLast_cons_cons]
  split
  · rfl
  · split
    · split <;> rfl
    · rename_i none
      simp at none

lemma snoc_of_isEmpty {run : Run} (none : run.text.isEmpty) (line : StyledLine) : line.snoc run = line :=
  if_pos none

lemma snoc_singleton (last run : Run) : snoc [last] run =
    if run.text.isEmpty then [last]
    else if last.sameFormat run then [{ last with text := last.text ++ run.text }]
    else [last, run] := rfl

/-- Runs can be joined from the first one on as well as from the last one back. -/
lemma merge_concat (line : StyledLine) (run : Run) : merge (line ++ [run]) = (merge line).snoc run := by
  induction line with
  | nil => rfl
  | cons first line ih =>
    rw [List.cons_append, merge, merge, ih]
    generalize merge line = merged
    by_cases empty : run.text.isEmpty
    · rw [snoc_of_isEmpty empty, snoc_of_isEmpty empty]
    by_cases none : first.text.isEmpty
    · rw [if_pos none, if_pos none]
    · rw [if_neg none, if_neg none]
      -- Only the last run can take the new one in, and only the first one can go into `first`.
      cases merged with
      | nil =>
        rw [snoc_singleton, if_neg empty]
        have alone : snoc [] run = [run] := if_neg empty
        rw [alone]
      | cons next behind =>
        cases behind with
        | nil =>
          by_cases joins : next.style = run.style ∧ next.bold = run.bold
          · obtain ⟨style, bold⟩ := joins
            by_cases same : first.style = run.style ∧ first.bold = run.bold <;>
              simp [snoc_singleton, snoc_cons_cons, sameFormat_iff, empty, style, bold, same]
          · by_cases same : first.style = next.style ∧ first.bold = next.bold <;>
              simp [snoc_singleton, snoc_cons_cons, sameFormat_iff, empty, joins, same]
        | cons second more =>
          rw [snoc_cons_cons]
          dsimp only
          split
          · rw [snoc_cons_cons]
          · rw [snoc_cons_cons, snoc_cons_cons]

lemma merge_eq_foldl_snoc (line : StyledLine) : merge line = line.foldl snoc [] := by
  induction line using List.reverseRecOn with
  | nil => rfl
  | append_singleton line run ih => rw [merge_concat, ih, List.foldl_concat]

/-- A row that has begun is filled up first; what is left makes full rows. -/
lemma rows_foldl_put (k : Nat) (cells : List Run) (f : Filling) :
    (cells.foldl (Filling.put (k + 1)) f).rows =
      f.above ++ (cells.take (k + 1 - f.column)).foldl snoc f.row ::
        (fullRows k (cells.drop (k + 1 - f.column))).map merge := by
  induction cells generalizing f with
  | nil => simp [fullRows, Filling.rows]
  | cons cell cells ih =>
    rw [List.foldl_cons, ih]
    by_cases full : k + 1 ≤ f.column
    · have none : k + 1 - f.column = 0 := by omega
      rw [Filling.put, if_pos full, none, List.take_zero, List.drop_zero, fullRows, List.map_cons,
        merge_eq_foldl_snoc, List.foldl_cons, Filling.rows, List.append_assoc]
      rfl
    · have more : k + 1 - f.column = (k + 1 - (f.column + 1)) + 1 := by omega
      rw [Filling.put, if_neg full, more, List.take_succ_cons, List.drop_succ_cons, List.foldl_cons]

/-- Going through the line cell by cell comes to the same rows. -/
theorem wrap_eq_rows_foldl_put (line : StyledLine) {width : Nat} (positive : 0 < width) (start : Nat) :
    line.wrap width start = (line.cells.foldl (Filling.put width) { column := start }).rows := by
  obtain ⟨k, rfl⟩ := Nat.exists_eq_add_one.2 positive
  rw [rows_foldl_put, ← merge_eq_foldl_snoc]
  rfl

end StyledLine
end CalcShell
