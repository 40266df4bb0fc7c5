import CalcShell.Popup.Layout
import Mathlib.Logic.Basic
import Mathlib.Tactic.Lemma
import Mathlib.Tactic.SplitIfs

/-! Where the popup stands. Its box lies on the screen and leaves the row with the cursor free,
whatever it has to hold: hint, candidates and documentation are cut down to the lines on one side of
that row. -/
namespace CalcShell.Popup

/-- The whole box is on a screen. -/
structure Layout.IsOn (box : Layout) (width height : Int) : Prop where
  left : 0 ≤ (box.left : Int)
  right : (box.left : Int) + box.width ≤ width
  top : 0 ≤ box.top
  bottom : box.top + box.height ≤ height

/-- The box has no line in a row. -/
def Layout.Spares (box : Layout) (row : Int) : Prop :=
  row < box.top ∨ box.top + box.height ≤ row

/-! ### Height -/

lemma divideUp_le {n d rows : Nat} (fits : n ≤ rows * d) : divideUp n d ≤ rows := by
  rcases Nat.eq_zero_or_pos d with rfl | positive
  · simp [divideUp]
  · have below : n + d - 1 < (rows + 1) * d := by
      rw [Nat.add_mul]
      omega
    exact Nat.le_of_lt_succ ((Nat.div_lt_iff_lt_mul positive).2 below)

lemma divideUp_pos {n d : Nat} (some : 0 < n) (positive : 0 < d) : 0 < divideUp n d :=
  Nat.div_pos (by omega) positive

lemma gridFor_pos (inner : Nat) {items : List Bytes} (some : items ≠ []) :
    0 < (gridFor inner items).rows ∧ 0 < (gridFor inner items).cols := by
  have length := List.length_pos_iff.2 some
  simp only [gridFor, List.isEmpty_iff, some, if_false]
  exact ⟨divideUp_pos length (by omega), by omega⟩

/-- What is left after cutting has room. -/
lemma Heights.fit_le (wanted : Heights) (room : Nat) (hasItems : Bool) :
    (wanted.fit room hasItems).header + (wanted.fit room hasItems).rows +
      (wanted.fit room hasItems).doc ≤ room := by
  unfold fit
  split_ifs <;> dsimp only <;> omega

/-- The last row of candidates is never cut. -/
lemma Heights.rows_fit_pos {wanted : Heights} {room : Nat} (some : 0 < wanted.rows)
    (positive : 0 < room) : 0 < (wanted.fit room true).rows := by
  simp only [fit, if_true]
  split_ifs <;> dsimp only <;> omega

lemma length_visibleItems_le {slots : Nat} (positive : 0 < slots) (items : List Bytes)
    (selected : Option Nat) : (visibleItems slots items selected).1.length ≤ slots := by
  unfold visibleItems
  split_ifs with all one
  · simpa [Nat.ne_of_gt positive] using all
  · subst one
    simp
  · simp
    omega

/-- A grid that shows as many candidates as it has places for keeps to its rows. -/
lemma shownRows_le (inner room header doc : Nat) (items : List Bytes) (selected : Option Nat)
    (positive : 0 < room) :
    let grid := gridFor inner items
    let heights := Heights.fit { header, rows := grid.rows, doc } room (!items.isEmpty)
    let shown := (visibleItems (heights.rows * grid.cols) items selected).1
    (if shown.isEmpty then heights.rows else divideUp shown.length grid.cols) ≤ heights.rows := by
  intro grid heights shown
  by_cases none : items = []
  · subst none
    simp [shown, visibleItems]
  · obtain ⟨rows, cols⟩ := gridFor_pos inner none
    have hasItems : (!items.isEmpty) = true := by simp [none]
    have kept : 0 < heights.rows := by
      unfold heights
      rw [hasItems]
      exact Heights.rows_fit_pos rows positive
    split_ifs
    · exact Nat.le_refl _
    · exact divideUp_le (length_visibleItems_le (Nat.mul_pos kept cols) items selected)

/-! ### The sides of the cursor row -/

lemma wrapCount_eq {n : Int} (low : -0x80000000 ≤ n) (high : n < 0x80000000) :
    Geometry.wrapCount n = n := by
  unfold Geometry.wrapCount
  rw [Int.bmod_eq_of_le] <;> omega

lemma fifths_eq {n width : Nat} (small : width * n < 0x80000000) :
    fifths n width = width * n / 5 := by
  unfold fifths
  rw [← Int.natCast_mul]
  generalize width * n = fifth at *
  rw [wrapCount_eq (by omega) (by omega)]
  rfl

lemma room_eq {height row : Nat} (small : row < 0x40000000) :
    room height row = if row * 2 < height then (.below, height - row - 1) else (.above, row) := by
  unfold room
  rw [wrapCount_eq (by omega) (by omega)]
  by_cases upper : row * 2 < height
  · rw [if_pos upper, if_pos (by omega)]
  · rw [if_neg upper, if_neg (by omega)]

/-! ### The box -/

section
variable (request : Request) (width height row : Nat) (anchor : Anchor) (available : Nat)

lemma width_box_le : (request.box width height row anchor available).width ≤ fifths 4 width :=
  Nat.min_le_left _ _

/-- The box has as many lines as there are on its side at the most. -/
lemma height_box_le (lines : 3 ≤ available) :
    (request.box width height row anchor available).height ≤ available := by
  unfold Request.box
  dsimp only
  generalize List.length (_ : List StyledLine) = header
  generalize (WordWrap.wrap (request.doc.getD []) (fifths 4 width - 2)).length = doc
  have kept := Heights.fit_le
    { header, rows := (gridFor (fifths 4 width - 2) request.items).rows, doc } (available - 2)
    (!request.items.isEmpty)
  have shown := shownRows_le (fifths 4 width - 2) (available - 2) header doc request.items
    request.selected (by omega)
  dsimp only at shown
  omega

lemma left_box : (request.box width height row anchor available).left =
    clampTo (width - (request.box width height row anchor available).width) request.col := by
  unfold Request.box
  generalize fifths 4 width = maxWidth
  rfl

lemma top_box_below : (request.box width height row .below available).top =
    clampTo (height - (request.box width height row .below available).height) (row + 1) := by
  unfold Request.box
  rfl

lemma top_box_above : (request.box width height row .above available).top =
    clampTo (height - (request.box width height row .above available).height)
      (row - (request.box width height row .above available).height) := by
  unfold Request.box
  rfl

end

/-- A box that is no higher than its side of the cursor row keeps to this side. -/
lemma isOn_of_beside {box : Layout} {width height row : Nat} {col : Int} (narrow : box.width ≤ width)
    (left : box.left = clampTo (width - box.width) col)
    (beside : (row + 1 + box.height ≤ height ∧ box.top = clampTo (height - box.height) (row + 1)) ∨
      (box.height ≤ row ∧ row ≤ height ∧
        box.top = clampTo (height - box.height) (row - box.height))) :
    box.IsOn width height ∧ box.Spares row := by
  unfold clampTo at left beside
  rcases beside with ⟨fits, top⟩ | ⟨fits, inside, top⟩
  · refine ⟨⟨?_, ?_, ?_, ?_⟩, .inl ?_⟩ <;> omega
  · refine ⟨⟨?_, ?_, ?_, ?_⟩, .inr ?_⟩ <;> omega

lemma isOn_box (request : Request) (width height row : Nat) (wide : width ≤ 0xFFFF)
    (high : height ≤ 0xFFFF) (inside : row < height) (lines : 3 ≤ (room height row).2) :
    (request.box width height row (room height row).1 (room height row).2).IsOn width height ∧
      (request.box width height row (room height row).1 (room height row).2).Spares row := by
  have narrow (anchor : Anchor) (available : Nat) :
      (request.box width height row anchor available).width ≤ width := by
    refine Nat.le_trans (width_box_le request width height row anchor available) ?_
    rw [fifths_eq (by omega)]
    omega
  rw [room_eq (by omega)] at lines ⊢
  split_ifs at lines ⊢
  · have fits : row + 1 + (request.box width height row .below (height - row - 1)).height ≤ height := by
      have := height_box_le request width height row .below _ lines
      dsimp only at this
      omega
    exact isOn_of_beside (narrow _ _) (left_box ..) (.inl ⟨fits, top_box_below ..⟩)
  · have fits := height_box_le request width height row .above _ lines
    exact isOn_of_beside (narrow _ _) (left_box ..)
      (.inr ⟨fits, Nat.le_of_lt inside, top_box_above ..⟩)

/-! ### Requests -/

/-- The lines on the larger side of the cursor row. -/
def Request.linesBeside (request : Request) : Int :=
  if request.row * 2 < request.height then request.height - request.row - 1 else request.row

/-- There are cells for a border with some content beside the cursor row. -/
def Request.HasRoom (request : Request) : Prop :=
  3 ≤ request.linesBeside ∧ 4 ≤ request.width * 4 / 5

section
variable {request : Request}

lemma layout_eq_place (wide : 1 ≤ request.width) (inside : 0 ≤ request.row ∧ request.row < request.height) :
    request.layout =
      request.place request.width.toNat request.height.toNat request.row.toNat := by
  have valid : (decide (request.width ≤ 0) || decide (request.height ≤ 0) ||
      decide (request.row < 0) || decide (request.height ≤ request.row)) = false := by
    simp only [Bool.or_eq_false_iff, decide_eq_false_iff_not]
    omega
  rw [Request.layout, valid, if_neg Bool.false_ne_true]

lemma hasRoom_iff (wide : 1 ≤ request.width ∧ request.width ≤ 0xFFFF)
    (high : request.height ≤ 0xFFFF) (inside : 0 ≤ request.row ∧ request.row < request.height) :
    request.HasRoom ↔ 3 ≤ (room request.height.toNat request.row.toNat).2 ∧
      4 ≤ fifths 4 request.width.toNat := by
  unfold Request.HasRoom Request.linesBeside
  rw [fifths_eq (by omega), room_eq (by omega)]
  split_ifs <;> dsimp only <;> omega

end

lemma minimal_beside {width height row : Int} (inside : 0 ≤ row ∧ row < height) (col : Int) :
    (minimal width height row col).height = 0 ∨
      ((minimal width height row col).height = 2 ∧ (minimal width height row col).width = 2 ∧
        (minimal width height row col).IsOn width height ∧
        (minimal width height row col).Spares row) := by
  unfold minimal
  split_ifs with tiny below above
  · exact .inl rfl
  · refine .inr ⟨rfl, rfl, ⟨?_, ?_, ?_, ?_⟩, .inl ?_⟩ <;> simp [clampTo] at tiny ⊢ <;> omega
  · refine .inr ⟨rfl, rfl, ⟨?_, ?_, ?_, ?_⟩, .inr ?_⟩ <;> simp [clampTo] at tiny ⊢ <;> omega
  · exact .inl rfl

/-- On every screen and for whatever it has to hold, the popup is on the screen, takes no more than
four fifths of its width and leaves the cursor row free, or there is no room for it. So does the
smallest popup, which takes its place then. -/
theorem popup_beside_cursor_row (request : Request)
    (wide : 1 ≤ request.width ∧ request.width ≤ 0xFFFF)
    (high : 1 ≤ request.height ∧ request.height ≤ 0xFFFF)
    (inside : 0 ≤ request.row ∧ request.row < request.height) :
    ((request.layout = .error .noRoom ∧ ¬ request.HasRoom) ∨
      ∃ box, request.layout = .ok box ∧ box.IsOn request.width request.height ∧
        (box.width : Int) ≤ request.width * 4 / 5 ∧ box.Spares request.row) ∧
    let box := minimal request.width request.height request.row request.col
    box.height = 0 ∨ (box.height = 2 ∧ box.width = 2 ∧ box.IsOn request.width request.height ∧
      box.Spares request.row) := by
  refine ⟨?_, minimal_beside inside request.col⟩
  have width : (request.width.toNat : Int) = request.width := Int.toNat_of_nonneg (by omega)
  have height : (request.height.toNat : Int) = request.height := Int.toNat_of_nonneg (by omega)
  have row : (request.row.toNat : Int) = request.row := Int.toNat_of_nonneg inside.1
  rw [layout_eq_place wide.1 inside, Request.place]
  by_cases hasRoom : request.HasRoom
  · obtain ⟨lines, cells⟩ := (hasRoom_iff wide high.2 inside).1 hasRoom
    have narrow := width_box_le request request.width.toNat request.height.toNat request.row.toNat
      (room request.height.toNat request.row.toNat).1 (room request.height.toNat request.row.toNat).2
    obtain ⟨isOn, spares⟩ := isOn_box request request.width.toNat request.height.toNat
      request.row.toNat (by omega) (by omega) (by omega) lines
    rw [width, height] at isOn
    rw [row] at spares
    rw [fifths_eq (by omega)] at narrow
    refine .inr ⟨_, if_neg ?_, isOn, by omega, spares⟩
    simp [lines, cells]
  · have full := hasRoom
    rw [hasRoom_iff wide high.2 inside, not_and_or, Nat.not_le, Nat.not_le] at full
    exact .inl ⟨if_pos (by simpa using full), hasRoom⟩

/-- Near the lower right corner of a small screen, with more candidates than it has places for. -/
theorem popup_above_cursor_row :
    let request : Request :=
      { width := 20, height := 9, row := 6, col := 19, selected := some 7
        items := ["sin", "cos", "tan", "log", "exp", "sqrt", "floor", "ceil", "pi", "tau"].map bytes
        doc := some (bytes "Mathematical functions and constants.") }
    ∃ box, request.layout = .ok box ∧ box.IsOn 20 9 ∧ (box.width : Int) ≤ 16 ∧ box.Spares 6 := by
  intro request
  have room : request.HasRoom := ⟨by decide, by decide⟩
  have placed := (popup_beside_cursor_row request (by decide) (by decide) (by decide)).1
  exact placed.resolve_left fun refused => refused.2 room

end CalcShell.Popup
