import CalcShell.Proofs.Screen.Signals
import Mathlib.Data.List.Induction

/-! A painter composes only the rows that may have changed, and sends only those that differ from what
it takes the terminal to show. Whatever it was asked for before, after it has presented the terminal
shows in every row what the row is to show now. -/
namespace CalcShell.Painter

/-- What a painter can be asked for. -/
inductive Request where
  | enter
  | draw (command : Draw)
deriving DecidableEq, Repr

def perform (p : Painter) : Request → Bytes × Painter
  | .enter => p.enter
  | .draw command => p.draw command

/-- All that is sent for some requests. -/
def sent (p : Painter) : List Request → Bytes
  | [] => []
  | request :: rest => (p.perform request).1 ++ (p.perform request).2.sent rest

/-! ### What is sent, in signals -/

variable {p : Painter} {g : CellGrid}

/-- Whether a popup has row `i` of the screen. -/
def isCovered (popup : Option PopupBox) (i : Nat) : Bool := popup.any (covers ·.layout i)

def wipeSignals (p : Painter) : List Signal := if p.hasEntered then [.reset, .clear] else []

def rowSignals (p : Painter) (i : Nat) (row : PaneRow) : List Signal :=
  if row.isDirty ∧ p.compose i row.content ≠ row.shown then
    .moveTo (i + 1) 1 :: cellSignals none (p.compose i row.content)
  else []

def paneSignals (p : Painter) (rows : List PaneRow) : List Signal :=
  (rows.mapIdx p.rowSignals).flatten

def statusSignals (p : Painter) : List Signal :=
  let cells := (toCells p.geometry.cols.toNat p.status).map fun cell =>
    if cell.style = .default then { cell with style := .status } else cell
  .moveTo p.geometry.rows 1 :: cellSignals none cells.dropLast ++ [.eraseRight]

def presentSignals (p : Painter) : List Signal :=
  if p.geometry.isDegenerate then []
  else
    p.paneSignals p.pane ++ (if p.isStatusDirty then p.statusSignals else []) ++
      [.moveTo (Geometry.wrapCount (p.cursorRow + 1)) (Geometry.wrapCount (p.cursorCol + 1))]

def signals (p : Painter) : Request → List Signal
  | .enter => if p.hasEntered then [] else [.alternate, .home, .clear, .reset, .clear]
  | .draw .present => p.presentSignals
  | .draw (.measured size) =>
    if size.isDegenerate || size == p.geometry then [] else p.wipeSignals
  | .draw _ => []

@[simp] lemma length_toCells (width : Nat) (line : StyledLine) : (toCells width line).length = width := by
  unfold toCells
  rw [List.length_append, List.length_replicate, List.length_take]
  omega

@[simp] lemma length_overlay (row : ScreenRow) (column : Nat) (cells : ScreenRow) :
    (overlay row column cells).length = row.length := by
  unfold overlay
  rw [List.length_append, List.length_append, List.length_take, List.length_take, List.length_drop]
  omega

/-- A row fills the screen. -/
@[simp] lemma length_compose (p : Painter) (i : Nat) (content : StyledLine) :
    (p.compose i content).length = p.geometry.cols.toNat := by
  unfold compose
  dsimp only
  split
  · split <;> simp
  · simp

/-- Where no popup is, a row is its content. -/
lemma compose_of_not_isCovered {i : Nat} (free : isCovered p.popup i = false) (content : StyledLine) :
    p.compose i content = toCells p.geometry.cols.toNat content := by
  unfold compose
  cases popup : p.popup with
  | none => rfl
  | some box =>
    simp only [isCovered, popup, Option.any_some] at free
    simp [free]

/-! ### Mirroring -/

/-- What the painter takes a row of the terminal to show stands there, and a row that is not dirty shows
what is composed for it. -/
structure RowHolds (p : Painter) (g : CellGrid) (i : Nat) (row : PaneRow) : Prop where
  shown : ∀ (c : Nat) cell, row.shown[c]? = some cell → g.cell (i + 1) (c + 1) = some cell
  clean : row.isDirty = false → row.shown = p.compose i row.content

/-- The painter has a row for each row of the pane and knows what the terminal shows there. -/
structure Mirrors (p : Painter) (g : CellGrid) : Prop where
  height : p.pane.length = paneHeight p.geometry
  rows : ∀ (i : Nat) row, p.pane[i]? = some row → p.RowHolds g i row

lemma rowHolds_of_unknown {i : Nat} {row : PaneRow} (dirty : row.isDirty = true)
    (unknown : row.shown = []) : p.RowHolds g i row := by
  refine ⟨fun c cell there => ?_, fun clean => ?_⟩
  · simp [unknown] at there
  · simp [dirty] at clean

lemma mem_pane_resize {size : Geometry} {row : PaneRow} (mem : row ∈ (p.resize size).2.pane) :
    row.isDirty = true ∧ row.shown = [] := by
  rcases List.mem_append.1 mem with kept | fresh
  · obtain ⟨old, -, rfl⟩ := List.mem_map.1 kept
    exact ⟨rfl, rfl⟩
  · rw [List.eq_of_mem_replicate fresh]
    exact ⟨rfl, rfl⟩

/-- After it has taken a size over, a painter counts on nothing. -/
lemma mirrors_resize (p : Painter) (size : Geometry) (g : CellGrid) :
    (p.resize size).2.Mirrors g := by
  refine ⟨?_, fun i row there => ?_⟩
  · unfold resize
    dsimp only
    rw [List.length_append, List.length_replicate, List.length_map, List.length_take]
    omega
  · obtain ⟨dirty, unknown⟩ := mem_pane_resize (List.mem_of_getElem? there)
    exact rowHolds_of_unknown dirty unknown

lemma Mirrors.setLine (mirrors : p.Mirrors g) (row : Int) (content : StyledLine) :
    (p.setLine row content).Mirrors g := by
  cases row with
  | negSucc n => exact mirrors
  | ofNat n =>
    refine ⟨?_, fun i changed there => ?_⟩
    · simpa [Painter.setLine] using mirrors.height
    · simp only [Painter.setLine, List.getElem?_modify] at there
      obtain ⟨old, here, rfl⟩ := Option.map_eq_some_iff.1 there
      obtain ⟨shown, clean⟩ := mirrors.rows i old here
      by_cases same : n = i
      · simp only [if_pos same]
        exact ⟨shown, by simp⟩
      · simp only [if_neg same]
        exact ⟨shown, clean⟩

lemma pane_markPopup (p : Painter) : p.markPopup.pane =
    p.pane.mapIdx fun i row =>
      if isCovered p.popup i then { row with isDirty := true } else row := by
  unfold markPopup isCovered
  cases p.popup with
  | none => exact List.ext_getElem? fun n => by simp
  | some box => simp

/-- Another popup, or none, makes the rows under it and under the old one dirty. -/
lemma pane_setPopup (p : Painter) (popup : Option PopupBox) : (p.setPopup popup).pane =
    p.pane.mapIdx fun i row =>
      if isCovered p.popup i || isCovered popup i then { row with isDirty := true } else row := by
  unfold setPopup
  rw [pane_markPopup]
  dsimp only
  rw [pane_markPopup, List.mapIdx_mapIdx]
  congr 1
  funext i row
  by_cases old : isCovered p.popup i <;> by_cases new : isCovered popup i <;>
    simp [old, new]

lemma popup_setPopup (p : Painter) (popup : Option PopupBox) :
    (p.setPopup popup).popup = popup ∧ (p.setPopup popup).geometry = p.geometry := by
  unfold setPopup markPopup
  cases p.popup <;> cases popup <;> exact ⟨rfl, rfl⟩

lemma Mirrors.setPopup (mirrors : p.Mirrors g) (popup : Option PopupBox) :
    (p.setPopup popup).Mirrors g := by
  obtain ⟨isNew, geometry⟩ := popup_setPopup p popup
  refine ⟨?_, fun i row there => ?_⟩
  · simpa [pane_setPopup, geometry] using mirrors.height
  · rw [pane_setPopup, List.getElem?_mapIdx] at there
    obtain ⟨old, here, rfl⟩ := Option.map_eq_some_iff.1 there
    obtain ⟨shown, clean⟩ := mirrors.rows i old here
    split
    · exact ⟨shown, by simp⟩
    · -- Neither popup has this row, so nothing in it has changed.
      rename_i free
      simp only [Bool.or_eq_true, not_or, Bool.not_eq_true] at free
      refine ⟨shown, fun isClean => ?_⟩
      have freeNow : isCovered (p.setPopup popup).popup i = false := by rw [isNew]; exact free.2
      rw [clean isClean, compose_of_not_isCovered free.1, compose_of_not_isCovered freeNow, geometry]

/-! ### Presenting -/

/-- What is sent for a row stands in it from its first column on, and all else stays. -/
lemma cell_rowSignals (p : Painter) (g : CellGrid) (i : Nat) (row : PaneRow) (r c : Int) :
    (g.receiveAll (p.rowSignals i row)).cell r c =
      if (row.isDirty ∧ p.compose i row.content ≠ row.shown) ∧
          r = i + 1 ∧ 1 ≤ c ∧ c < 1 + p.geometry.cols.toNat then
        (p.compose i row.content)[(c - 1).toNat]?
      else g.cell r c := by
  unfold rowSignals
  split
  · rename_i changed
    rw [CellGrid.cell_receiveAll_row, length_compose]
    simp only [changed, true_and, not_false_eq_true, ne_eq, and_self]
  · rename_i same
    simp [same]

lemma paneSignals_concat (p : Painter) (rows : List PaneRow) (row : PaneRow) :
    p.paneSignals (rows ++ [row]) = p.paneSignals rows ++ p.rowSignals rows.length row := by
  simp [paneSignals, List.mapIdx_concat]

lemma cell_paneSignals_of_length_lt (p : Painter) (g : CellGrid) (rows : List PaneRow) {r : Int}
    (below : rows.length < r) (c : Int) :
    (g.receiveAll (p.paneSignals rows)).cell r c = g.cell r c := by
  induction rows using List.reverseRecOn with
  | nil => rfl
  | append_singleton rows row ih =>
    simp only [List.length_append, List.length_singleton] at below
    rw [paneSignals_concat, CellGrid.receiveAll_append, cell_rowSignals, if_neg (by omega)]
    exact ih (by omega)

/-- Every row comes to look as if it alone were sent. -/
lemma cell_paneSignals (p : Painter) (g : CellGrid) {rows : List PaneRow} {i : Nat} {row : PaneRow}
    (there : rows[i]? = some row) (c : Int) :
    (g.receiveAll (p.paneSignals rows)).cell (i + 1) c =
      (g.receiveAll (p.rowSignals i row)).cell (i + 1) c := by
  induction rows using List.reverseRecOn with
  | nil => simp at there
  | append_singleton rows last ih =>
    rw [paneSignals_concat, CellGrid.receiveAll_append]
    rcases Nat.lt_trichotomy i rows.length with before | rfl | behind
    · rw [List.getElem?_append_left before] at there
      rw [cell_rowSignals, if_neg (by omega)]
      exact ih there
    · rw [List.getElem?_concat_length, Option.some.injEq] at there
      subst there
      rw [cell_rowSignals, cell_rowSignals, cell_paneSignals_of_length_lt p g rows (by omega)]
    · rw [List.getElem?_eq_none (by simp; omega)] at there
      cases there

/-- The status row is below the pane. -/
lemma cell_statusSignals (p : Painter) (g : CellGrid) {r : Int} (other : r ≠ p.geometry.rows) (c : Int) :
    (g.receiveAll p.statusSignals).cell r c = g.cell r c := by
  unfold statusSignals
  dsimp only
  rw [CellGrid.receiveAll_append, CellGrid.receiveAll_cons, CellGrid.receiveAll_nil]
  generalize List.dropLast _ = cells
  have row := CellGrid.row_receiveAll_row g p.geometry.rows cells
  have cell := CellGrid.cell_receiveAll_row g p.geometry.rows cells r c
  simp only [other, false_and, if_false] at cell
  simp only [CellGrid.receive, row, other, false_and, if_false, cell]

/-- Presenting sends to a row of the pane what is to be sent for it. -/
lemma cell_presentSignals (usable : p.geometry.isDegenerate = false) (mirrors : p.Mirrors g) {i : Nat}
    {row : PaneRow} (there : p.pane[i]? = some row) (c : Int) :
    (g.receiveAll p.presentSignals).cell (i + 1) c =
      (g.receiveAll (p.rowSignals i row)).cell (i + 1) c := by
  have above : ((i : Int) + 1) ≠ p.geometry.rows := by
    have inside := (List.getElem?_eq_some_iff.1 there).1
    rw [mirrors.height, paneHeight] at inside
    split at inside <;> omega
  rw [presentSignals, usable, if_neg Bool.false_ne_true, CellGrid.receiveAll_append,
    CellGrid.receiveAll_append]
  change (CellGrid.receiveAll (g.receiveAll (p.paneSignals p.pane)) _).cell (i + 1) c = _
  split
  · rw [cell_statusSignals _ _ above, cell_paneSignals p g there]
  · exact cell_paneSignals p g there c

lemma rowHolds_presentRow {i : Nat} {row : PaneRow} (holds : p.RowHolds g i row) :
    p.RowHolds (g.receiveAll (p.rowSignals i row)) i (p.presentRow i row).2 ∧
      (p.presentRow i row).2.content = row.content ∧ (p.presentRow i row).2.isDirty = false := by
  have unsent (same : ¬(row.isDirty ∧ p.compose i row.content ≠ row.shown)) :
      g.receiveAll (p.rowSignals i row) = g := by simp [rowSignals, same]
  unfold presentRow
  by_cases dirty : row.isDirty = true
  · by_cases same : p.compose i row.content = row.shown
    · rw [unsent (by simp [same]), if_pos dirty]
      dsimp only
      rw [if_pos same]
      exact ⟨⟨holds.shown, fun _ => same.symm⟩, rfl, rfl⟩
    · rw [if_pos dirty]
      dsimp only
      rw [if_neg same]
      refine ⟨⟨fun c cell there => ?_, fun _ => rfl⟩, rfl, rfl⟩
      have inside := (List.getElem?_eq_some_iff.1 there).1
      rw [length_compose] at inside
      rw [cell_rowSignals, if_pos ⟨⟨dirty, same⟩, rfl, by omega, by omega⟩, ← there]
      congr 1
      omega
  · rw [unsent (by simp [dirty]), if_neg dirty]
    exact ⟨holds, rfl, by simpa using dirty⟩

lemma Mirrors.present (mirrors : p.Mirrors g) :
    p.present.2.Mirrors (g.receiveAll p.presentSignals) ∧
      (p.geometry.isDegenerate = false → ∀ row ∈ p.present.2.pane, row.isDirty = false) := by
  cases usable : p.geometry.isDegenerate with
  | true =>
    have nothing : p.present.2 = p ∧ p.presentSignals = [] := by
      simp [Painter.present, presentSignals, usable]
    rw [nothing.1, nothing.2]
    exact ⟨mirrors, by simp⟩
  | false =>
    have pane : p.present.2.pane = p.pane.mapIdx fun i row => (p.presentRow i row).2 :=
      List.ext_getElem? fun n => by simp [Painter.present, usable, Function.comp_def]
    have geometry : p.present.2.geometry = p.geometry := by
      simp [Painter.present, usable]
    have compose (i : Nat) (content : StyledLine) :
        p.present.2.compose i content = p.compose i content := by
      simp [Painter.present, usable, Painter.compose]
    refine ⟨⟨by simpa [pane, geometry] using mirrors.height, fun i row there => ?_⟩,
      fun _ row mem => ?_⟩
    · rw [pane, List.getElem?_mapIdx] at there
      obtain ⟨old, here, rfl⟩ := Option.map_eq_some_iff.1 there
      obtain ⟨⟨shown, clean⟩, -, -⟩ := rowHolds_presentRow (mirrors.rows i old here)
      refine ⟨fun c cell stands => ?_, fun isClean => ?_⟩
      · rw [cell_presentSignals usable mirrors here]
        exact shown c cell stands
      · rw [compose]
        exact clean isClean
    · rw [pane] at mem
      obtain ⟨i, inside, rfl⟩ := List.mem_mapIdx.1 mem
      exact (rowHolds_presentRow (mirrors.rows i _ (List.getElem?_eq_getElem inside))).2.2

lemma Mirrors.perform (mirrors : p.Mirrors g) (request : Request) :
    (p.perform request).2.Mirrors (g.receiveAll (p.signals request)) := by
  cases request with
  | enter =>
    cases entered : p.hasEntered with
    | true => simpa [Painter.perform, signals, enter, entered] using mirrors
    | false =>
      simp only [Painter.perform, signals, enter, entered, if_neg Bool.false_ne_true]
      exact mirrors_resize _ p.geometry _
  | draw command =>
    cases command with
    | line row content => exact mirrors.setLine row content
    | status content => exact ⟨mirrors.height, fun i row there =>
        ⟨(mirrors.rows i row there).shown, (mirrors.rows i row there).clean⟩⟩
    | popup layout => exact mirrors.setPopup (some { layout, rows := layout.innerRows })
    | hidePopup => exact mirrors.setPopup none
    | cursor row col => exact ⟨mirrors.height, fun i row there =>
        ⟨(mirrors.rows i row there).shown, (mirrors.rows i row there).clean⟩⟩
    | present => exact mirrors.present.1
    | suspend isOn => exact mirrors
    | measured size =>
      simp only [Painter.perform, signals, draw, measured]
      split
      · exact mirrors
      · exact mirrors_resize p size _

/-- What a painter is to show: the lines of the pane and the popup above them. -/
structure Told where
  size : Geometry
  lines : List StyledLine
  popup : Option PopupBox := none

namespace Told

/-- Nothing, on a screen of some size. -/
def blank (size : Geometry) : Told := { size, lines := List.replicate (paneHeight size) [] }

end Told

def told (p : Painter) : Told := { size := p.geometry, lines := p.pane.map (·.content), popup := p.popup }

@[simp] lemma content_presentRow (p : Painter) (i : Nat) (row : PaneRow) :
    (p.presentRow i row).2.content = row.content := by
  unfold presentRow
  split
  · dsimp only
    split <;> rfl
  · rfl

end CalcShell.Painter
