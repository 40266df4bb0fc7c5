import CalcShell.Screen.Painter
import Mathlib.Tactic.Lemma

/-! The control sequences and cells that a painter sends, and a terminal that holds in every cell what
was put there last. A row of cells that is sent stands in that row afterwards, each cell in its own
format, and no other row is touched. -/
namespace CalcShell

/-- What a terminal can be sent. -/
inductive Signal where
  /-- Switch to the alternate screen. -/
  | alternate
  | home
  | clear
  /-- Clear the row from the cursor on. -/
  | eraseRight
  | moveTo (row col : Int)
  | reset
  | select (style : Style) (bold : Bool)
  /-- One cell of text. -/
  | put (text : Bytes)
deriving DecidableEq, Repr

namespace Signal

def encode (colors : ColorScheme) : Signal → Bytes
  | .alternate => Painter.csi "?1049h"
  | .home => Painter.csi "H"
  | .clear => Painter.clearAll
  | .eraseRight => Painter.csi "K"
  | .moveTo row col => Painter.moveTo row col
  | .reset => Painter.resetStyle
  | .select style bold => Painter.selectStyle colors style bold
  | .put text => text

end Signal

/-- The cells of a terminal and the place and format in which it writes. Rows and columns count from
one. -/
structure CellGrid where
  /-- What was put into a cell since it was cleared last. -/
  cell : Int → Int → Option Run := fun _ _ => none
  row : Int := 1
  col : Int := 1
  style : Style := .default
  bold : Bool := false

namespace CellGrid

def receive (g : CellGrid) : Signal → CellGrid
  | .alternate => { g with cell := fun _ _ => none }
  | .home => { g with row := 1, col := 1 }
  | .clear => { g with cell := fun _ _ => none }
  | .eraseRight =>
    { g with cell := fun r c => if r = g.row ∧ g.col ≤ c then none else g.cell r c }
  | .moveTo row col => { g with row, col }
  | .reset => { g with style := .default, bold := false }
  | .select style bold => { g with style, bold }
  | .put text =>
    { g with
      cell := fun r c =>
        if r = g.row ∧ c = g.col then some { style := g.style, text, bold := g.bold } else g.cell r c
      col := g.col + 1 }

def receiveAll (g : CellGrid) (signals : List Signal) : CellGrid := signals.foldl receive g

@[simp] lemma receiveAll_nil (g : CellGrid) : g.receiveAll [] = g := rfl

@[simp] lemma receiveAll_cons (g : CellGrid) (signal : Signal) (signals : List Signal) :
    g.receiveAll (signal :: signals) = (g.receive signal).receiveAll signals := rfl

@[simp] lemma receiveAll_append (g : CellGrid) (first second : List Signal) :
    g.receiveAll (first ++ second) = (g.receiveAll first).receiveAll second := List.foldl_append

end CellGrid

/-! ### Cells in a row -/

namespace Painter

/-- The signals for cells behind one in the format `last`. -/
def cellSignals (last : Option Run) : ScreenRow → List Signal
  | [] => [.reset]
  | cell :: rest =>
    (if last.any (·.sameFormat cell) then [] else [.select cell.style cell.bold]) ++
      .put cell.text :: cellSignals (some cell) rest

end Painter

namespace CellGrid
open Painter (cellSignals)

/-- The grid after a cell was sent. -/
def write (g : CellGrid) (cell : Run) : CellGrid :=
  { g with
    cell := fun r c => if r = g.row ∧ c = g.col then some cell else g.cell r c
    col := g.col + 1, style := cell.style, bold := cell.bold }

/-- One cell is sent, with its format unless that is selected already. -/
lemma receiveAll_cell {g : CellGrid} {last : Option Run} (cell : Run)
    (format : ∀ old ∈ last, g.style = old.style ∧ g.bold = old.bold) :
    g.receiveAll ((if last.any (·.sameFormat cell) then [] else [.select cell.style cell.bold]) ++
      [.put cell.text]) = g.write cell := by
  unfold write
  split
  · rename_i same
    obtain ⟨old, rfl, isSame⟩ := (Option.any_eq_true _ _).1 same
    simp only [Run.sameFormat, Bool.and_eq_true, beq_iff_eq] at isSame
    obtain ⟨style, bold⟩ := format old rfl
    simp [receive, style.trans isSame.1, bold.trans isSame.2]
  · simp [receive]

/-- Cells that are sent stand beside each other from the cursor on, and the cursor stays in the row. -/
lemma receiveAll_cellSignals {g : CellGrid} {last : Option Run} (cells : ScreenRow)
    (format : ∀ old ∈ last, g.style = old.style ∧ g.bold = old.bold) :
    (g.receiveAll (cellSignals last cells)).row = g.row ∧
      ∀ r c, (g.receiveAll (cellSignals last cells)).cell r c =
        if r = g.row ∧ g.col ≤ c ∧ c < g.col + cells.length then cells[(c - g.col).toNat]?
        else g.cell r c := by
  induction cells generalizing g last with
  | nil =>
    refine ⟨rfl, fun r c => ?_⟩
    rw [if_neg (by simp only [List.length_nil]; omega)]
    rfl
  | cons cell rest ih =>
    have shape : cellSignals last (cell :: rest) =
        ((if last.any (·.sameFormat cell) then [] else [.select cell.style cell.bold]) ++
          [.put cell.text]) ++ cellSignals (some cell) rest := by
      simp [cellSignals]
    rw [shape, receiveAll_append, receiveAll_cell cell format]
    have selected : ∀ old ∈ some cell,
        (g.write cell).style = old.style ∧ (g.write cell).bold = old.bold := by
      rintro old ⟨⟩
      exact ⟨rfl, rfl⟩
    obtain ⟨row, cells⟩ := ih selected
    refine ⟨row, fun r c => ?_⟩
    rw [cells, List.length_cons]
    unfold write
    dsimp only
    by_cases here : r = g.row ∧ c = g.col
    · obtain ⟨rfl, rfl⟩ := here
      rw [if_neg (by omega), if_pos ⟨rfl, rfl⟩, if_pos (by omega), Int.sub_self]
      rfl
    · rw [if_neg here]
      by_cases behind : r = g.row ∧ g.col + 1 ≤ c ∧ c < g.col + 1 + rest.length
      · have place : (c - g.col).toNat = (c - (g.col + 1)).toNat + 1 := by omega
        rw [if_pos behind, if_pos (by omega), place, List.getElem?_cons_succ]
      · rw [if_neg behind, if_neg (by omega)]

lemma row_receiveAll_row (g : CellGrid) (row : Int) (cells : ScreenRow) :
    (g.receiveAll (.moveTo row 1 :: cellSignals none cells)).row = row := by
  rw [receiveAll_cons, (receiveAll_cellSignals cells (by simp)).1]
  rfl

/-- A row that is sent stands in that row from the first column on, and all else stays. -/
lemma cell_receiveAll_row (g : CellGrid) (row : Int) (cells : ScreenRow) (r c : Int) :
    (g.receiveAll (.moveTo row 1 :: cellSignals none cells)).cell r c =
      if r = row ∧ 1 ≤ c ∧ c < 1 + cells.length then cells[(c - 1).toNat]? else g.cell r c := by
  rw [receiveAll_cons, (receiveAll_cellSignals cells (by simp)).2]
  rfl

end CellGrid
end CalcShell
