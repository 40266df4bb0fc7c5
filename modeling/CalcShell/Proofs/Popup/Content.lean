import CalcShell.Proofs.Popup.Placement
import CalcShell.Proofs.Text.Widths

/-! What the popup holds. Its lines fill it exactly, the selected candidate is among those shown, and what
does not fit is given up in order: first documentation, then rows of candidates, then lines of the hint. -/
namespace CalcShell.Popup

/-! ### Rows -/

lemma width_blank (n : Nat) : Utf8.width (blank n).text = n := by
  have none : ∀ b ∈ Bytes.spaces n, (!Utf8.isContinuation b) = true := by
    intro b mem
    rw [List.eq_of_mem_replicate mem]
    rfl
  rw [blank, Utf8.width, List.countP_eq_length.2 none, Bytes.length_spaces]

/-- A row is cut or filled up to exactly the width of the box. -/
lemma width_padTo {inner : Nat} (positive : 0 < inner) (line : StyledLine) :
    StyledLine.width (padTo inner line) = inner := by
  have fill {line : StyledLine} (fits : line.width ≤ inner) :
      StyledLine.width (if line.width < inner then line ++ [blank (inner - line.width)] else line) =
        inner := by
    split
    · rw [StyledLine.width_append, StyledLine.width_cons, width_blank, StyledLine.width_nil]
      omega
    · omega
  rw [padTo]
  split
  · exact fill (StyledLine.width_headD_wrap_le positive line)
  · rename_i fits
    exact fill (Nat.le_of_not_lt fits)

/-! ### Candidates -/

/-- The selection, if any, is one of the candidates. -/
def Request.SelectsItem (request : Request) : Prop :=
  ∀ s ∈ request.selected, s < request.items.length

/-- The first candidate in a grid that has one place for an ellipsis. -/
def windowStart (slots chosen : Nat) : Nat :=
  if chosen < slots - 1 then 0 else chosen - (slots - 1) + 1

/-- The window reaches as far as the chosen candidate, and not beyond the last one. -/
lemma windowStart_le {slots chosen n : Nat} (several : 1 < slots) (small : slots < n) (inside : chosen < n) :
    windowStart slots chosen ≤ chosen ∧ chosen < windowStart slots chosen + (slots - 1) ∧
      windowStart slots chosen + (slots - 1) ≤ n := by
  unfold windowStart
  split <;> omega

section
variable {slots : Nat} {items : List Bytes} {selected : Option Nat}

lemma visibleItems_of_fits (fits : slots = 0 ∨ items.length ≤ slots) :
    visibleItems slots items selected = (items, selected, false) := by
  rw [visibleItems, if_pos (by simpa using fits)]

lemma visibleItems_one (small : 1 < items.length) :
    visibleItems 1 items selected =
      (items[min (selected.getD 0) (items.length - 1)]?.toList, selected.map fun _ => 0, true) := by
  rw [visibleItems, if_neg (by simpa using small)]
  exact if_pos rfl

lemma visibleItems_window (several : 1 < slots) (small : slots < items.length) :
    visibleItems slots items selected =
      ((items.drop (windowStart slots (selected.getD 0))).take (slots - 1) ++ [bytes "..."],
        selected.map (· - windowStart slots (selected.getD 0)), true) := by
  rw [visibleItems, if_neg (by simp; omega)]
  exact if_neg (by omega)

/-- A grid that has not too many places is full. -/
lemma length_visibleItems (positive : 0 < slots) (inside : ∀ s ∈ selected, s < items.length) :
    (visibleItems slots items selected).1.length = min slots items.length := by
  by_cases fits : items.length ≤ slots
  · rw [visibleItems_of_fits (.inr fits), Nat.min_eq_right fits]
  have small : slots < items.length := Nat.lt_of_not_le fits
  have chosen : selected.getD 0 < items.length := by
    cases selected with
    | none => exact Nat.zero_lt_of_lt small
    | some s => exact inside s rfl
  rw [Nat.min_eq_left (Nat.le_of_lt small)]
  by_cases one : slots = 1
  · subst one
    have last : min (selected.getD 0) (items.length - 1) < items.length := by omega
    rw [visibleItems_one small]
    simp [List.getElem?_eq_getElem last]
  · have window := windowStart_le (by omega) small chosen
    rw [visibleItems_window (by omega) small, List.length_append, List.length_take, List.length_drop,
      List.length_singleton]
    omega

/-- The candidates shown have the selected one at its place. -/
lemma selected_visibleItems {s : Nat} (isSelected : selected = some s) (inside : s < items.length) :
    ∃ i, (visibleItems slots items selected).2.1 = some i ∧
      (visibleItems slots items selected).1[i]? = items[s]? := by
  subst isSelected
  by_cases fits : slots = 0 ∨ items.length ≤ slots
  · rw [visibleItems_of_fits fits]
    exact ⟨s, rfl, rfl⟩
  rw [not_or, Nat.not_le] at fits
  by_cases one : slots = 1
  · subst one
    rw [visibleItems_one fits.2]
    refine ⟨0, rfl, ?_⟩
    have last : min s (items.length - 1) = s := by omega
    dsimp only [Option.getD_some]
    rw [last, List.getElem?_eq_getElem inside]
    rfl
  · obtain ⟨start, reaches, -⟩ := windowStart_le (by omega) fits.2 inside
    rw [visibleItems_window (by omega) fits.2]
    refine ⟨s - windowStart slots s, rfl, ?_⟩
    dsimp only [Option.getD_some]
    rw [List.getElem?_append_left (by rw [List.length_take, List.length_drop]; omega),
      List.getElem?_take_of_lt (by omega), List.getElem?_drop, Nat.add_sub_cancel' start]

end

/-! ### Heights -/

section
variable (wanted : Heights) (room : Nat) (hasItems : Bool)

lemma Heights.doc_fit :
    (wanted.fit room hasItems).doc = min wanted.doc (room - wanted.header - wanted.rows) := by
  unfold fit
  split_ifs <;> dsimp only <;> omega

lemma Heights.header_fit :
    (wanted.fit room hasItems).header =
      if wanted.header + wanted.rows ≤ room then wanted.header
      else if hasItems then if room ≤ wanted.header then room - 1 else wanted.header
      else min wanted.header room := by
  unfold fit
  dsimp only
  split <;> rfl

lemma Heights.rows_fit :
    (wanted.fit room hasItems).rows =
      if wanted.header + wanted.rows ≤ room then wanted.rows
      else min wanted.rows (room - (wanted.fit room hasItems).header) := by
  unfold fit
  dsimp only
  split <;> rfl

/-- Nothing gets more lines than it wants. -/
lemma Heights.header_fit_le : (wanted.fit room hasItems).header ≤ wanted.header := by
  rw [header_fit]
  split_ifs <;> omega

lemma Heights.rows_fit_le : (wanted.fit room hasItems).rows ≤ wanted.rows := by
  rw [rows_fit]
  split <;> omega

lemma Heights.doc_fit_le : (wanted.fit room hasItems).doc ≤ wanted.doc := by
  rw [doc_fit]
  exact Nat.min_le_left _ _

/-- Rows are cut only where no documentation is left. -/
lemma Heights.doc_fit_eq_zero (cut : (wanted.fit room hasItems).rows < wanted.rows) :
    (wanted.fit room hasItems).doc = 0 := by
  rw [rows_fit] at cut
  rw [doc_fit]
  split at cut <;> omega

/-- The hint is cut only where at most one row is left. -/
lemma Heights.rows_fit_le_one (none : hasItems = false → wanted.rows = 0)
    (cut : (wanted.fit room hasItems).header < wanted.header) :
    (wanted.fit room hasItems).rows ≤ 1 := by
  rw [rows_fit]
  rw [header_fit] at cut ⊢
  split_ifs at cut ⊢ with fits some
  · omega
  · omega
  · omega
  · have := none (Bool.eq_false_iff.2 some)
    omega

end

/-! ### The box -/

/-- All lines of the argument hint. -/
def Request.hint (request : Request) (width : Nat) : List StyledLine :=
  match request.signature with
  | some signature => headerLines (max 1 (min (fifths 3 width) (fifths 4 width - 2))) signature.pieces
  | none => []

/-- All lines of the documentation. -/
def Request.notes (request : Request) (width : Nat) : List Bytes :=
  WordWrap.wrap (request.doc.getD []) (fifths 4 width - 2)

/-- A grid with places for all candidates. -/
def Request.grid (request : Request) (width : Nat) : Grid := gridFor (fifths 4 width - 2) request.items

/-- The lines all of it would take. -/
def Request.wanted (request : Request) (width : Nat) : Heights where
  header := (request.hint width).length
  rows := (request.grid width).rows
  doc := (request.notes width).length

lemma header_wanted (request : Request) (width : Nat) :
    (request.wanted width).header = (request.hint width).length := by
  rw [Request.wanted]

lemma doc_wanted (request : Request) (width : Nat) :
    (request.wanted width).doc = (request.notes width).length := by
  rw [Request.wanted]

/-- The lines given to each part, of so many lines in all. -/
def Request.heights (request : Request) (width room : Nat) : Heights :=
  (request.wanted width).fit room (!request.items.isEmpty)

/-- The candidates shown, with the place of the selected one. -/
def Request.shown (request : Request) (width room : Nat) : List Bytes × Option Nat × Bool :=
  visibleItems ((request.heights width room).rows * (request.grid width).cols) request.items
    request.selected

section
variable (request : Request) (width height row : Nat) (anchor : Anchor) (available : Nat)

lemma header_box : (request.box width height row anchor available).header =
    (request.hint width).take (request.heights width (available - 2)).header := by
  unfold Request.box Request.heights Request.wanted Request.hint
  rfl

lemma doc_box : (request.box width height row anchor available).doc =
    (request.notes width).take (request.heights width (available - 2)).doc := by
  unfold Request.box Request.heights Request.wanted Request.hint
  rfl

lemma cols_box : (request.box width height row anchor available).cols = (request.grid width).cols := by
  unfold Request.box
  rfl

lemma items_box : (request.box width height row anchor available).items =
    (request.shown width (available - 2)).1 := by
  unfold Request.box Request.shown Request.heights Request.wanted Request.hint
  rfl

lemma selected_box : (request.box width height row anchor available).selected =
    (request.shown width (available - 2)).2.1 := by
  unfold Request.box Request.shown Request.heights Request.wanted Request.hint
  rfl

lemma isDegraded_box : (request.box width height row anchor available).isDegraded = false := by
  unfold Request.box
  rfl

lemma anchor_box : (request.box width height row anchor available).anchor = anchor := by
  unfold Request.box
  rfl

end

/-- Each part gets no more lines than it has. -/
lemma length_header_box (request : Request) (width height row : Nat) (anchor : Anchor) (available : Nat) :
    (request.box width height row anchor available).header.length =
      (request.heights width (available - 2)).header := by
  have fits := (request.wanted width).header_fit_le (available - 2) (!request.items.isEmpty)
  rw [← Request.heights, header_wanted] at fits
  rw [header_box]
  exact List.length_take_of_le fits

lemma length_doc_box (request : Request) (width height row : Nat) (anchor : Anchor) (available : Nat) :
    (request.box width height row anchor available).doc.length =
      (request.heights width (available - 2)).doc := by
  have fits := (request.wanted width).doc_fit_le (available - 2) (!request.items.isEmpty)
  rw [← Request.heights, doc_wanted] at fits
  rw [doc_box]
  exact List.length_take_of_le fits

lemma divideUp_mul {d : Nat} (positive : 0 < d) (n : Nat) : divideUp (n * d) d = n := by
  rw [divideUp, Nat.add_sub_assoc positive, Nat.add_comm, Nat.add_mul_div_right _ _ positive,
    Nat.div_eq_of_lt (Nat.sub_one_lt_of_lt positive), Nat.zero_add]

lemma le_divideUp_mul {d : Nat} (positive : 0 < d) (n : Nat) : n ≤ divideUp n d * d := by
  have rest := Nat.mod_lt (n + d - 1) positive
  have whole := Nat.div_add_mod (n + d - 1) d
  rw [Nat.mul_comm] at whole
  rw [divideUp]
  omega

lemma rows_grid (request : Request) (width : Nat) :
    (request.grid width).rows = divideUp request.items.length (request.grid width).cols := by
  rw [Request.grid, gridFor]
  split
  · rename_i none
    rw [List.isEmpty_iff.1 none]
    rfl
  · rfl

lemma grid_pos {request : Request} (some : request.items ≠ []) (width : Nat) :
    0 < (request.grid width).rows ∧ 0 < (request.grid width).cols := gridFor_pos _ some

section
variable {request : Request} (width : Nat) {room : Nat}

lemma shown_eq_nil (none : request.items = []) : (request.shown width room).1 = [] := by
  rw [Request.shown, none, visibleItems_of_fits (.inr (Nat.zero_le _))]

/-- A grid has as many rows as it was given, whether or not it shows all candidates. -/
lemma rows_shown (inside : request.SelectsItem) (positive : 0 < room) :
    (if (request.shown width room).1.isEmpty then (request.heights width room).rows
      else divideUp (request.shown width room).1.length (request.grid width).cols) =
      (request.heights width room).rows := by
  split
  · rfl
  rename_i some
  rw [List.isEmpty_iff] at some
  have some : request.items ≠ [] := fun none => some (shown_eq_nil width none)
  obtain ⟨rows, cols⟩ := grid_pos some width
  have given : 0 < (request.heights width room).rows := by
    have hasItems : (!request.items.isEmpty) = true := by simp [some]
    rw [Request.heights, hasItems]
    exact Heights.rows_fit_pos rows positive
  have length : (request.shown width room).1.length =
      min ((request.heights width room).rows * (request.grid width).cols) request.items.length :=
    length_visibleItems (Nat.mul_pos given cols) inside
  rw [length]
  apply Nat.le_antisymm
  · exact divideUp_le (Nat.min_le_left _ _)
  · rcases Nat.le_total ((request.heights width room).rows * (request.grid width).cols)
        request.items.length with full | all
    · rw [Nat.min_eq_left full, divideUp_mul cols]
    · rw [Nat.min_eq_right all, ← rows_grid]
      exact Heights.rows_fit_le _ _ _

/-- Every candidate shown has a place. -/
lemma length_shown_le (inside : request.SelectsItem) (positive : 0 < room) :
    (request.shown width room).1.length ≤
      (request.heights width room).rows * (request.grid width).cols := by
  rw [← rows_shown width inside positive]
  split
  · rename_i none
    rw [List.isEmpty_iff.1 none]
    exact Nat.zero_le _
  · rename_i some
    rw [List.isEmpty_iff] at some
    have some : request.items ≠ [] := fun none => some (shown_eq_nil width none)
    exact le_divideUp_mul (grid_pos some width).2 _

end

lemma le_foldl_max (least : Nat) (widths : List Nat) : least ≤ widths.foldl max least := by
  induction widths generalizing least with
  | nil => exact Nat.le_refl least
  | cons width widths ih => exact Nat.le_trans (Nat.le_max_left _ _) (ih (max least width))

section
variable {request : Request} (width height row : Nat) (anchor : Anchor) {available : Nat}

lemma rows_box (inside : request.SelectsItem) (lines : 3 ≤ available) :
    (request.box width height row anchor available).rows =
      (request.heights width (available - 2)).rows := by
  have shown := rows_shown width inside (Nat.sub_pos_of_lt lines)
  rw [← shown]
  unfold Request.box Request.shown Request.heights Request.wanted Request.hint
  rfl

lemma height_box (inside : request.SelectsItem) (lines : 3 ≤ available) :
    (request.box width height row anchor available).height =
      (request.heights width (available - 2)).header + (request.heights width (available - 2)).rows +
        (request.heights width (available - 2)).doc + 2 := by
  rw [← rows_box width height row anchor inside lines]
  unfold Request.box Request.heights Request.wanted Request.hint
  rfl

lemma innerWidth_box_pos (wide : 4 ≤ fifths 4 width) :
    0 < (request.box width height row anchor available).innerWidth := by
  have content (header : List StyledLine) (shown : Nat) (grid : Grid) (doc : List Bytes) :
      1 ≤ contentWidth header shown grid doc := le_foldl_max 1 _
  have cells : 3 ≤ (request.box width height row anchor available).width := by
    unfold Request.box
    exact Nat.le_min.2 ⟨by omega, Nat.add_le_add_right (content _ _ _ _) 2⟩
  exact Nat.sub_pos_of_lt cells

/-- The rows inside the border are those of the parts, each as wide as the box. -/
lemma innerRows_box (wide : 4 ≤ fifths 4 width) :
    let box := request.box width height row anchor available
    box.innerRows.length = box.header.length + box.rows + box.doc.length ∧
      ∀ line ∈ box.innerRows, StyledLine.width line = box.innerWidth := by
  intro box
  have positive : 0 < box.innerWidth := innerWidth_box_pos width height row anchor wide
  have some : ¬(box.isDegraded || decide (box.innerWidth = 0)) = true := by
    rw [isDegraded_box, Bool.false_or, decide_eq_true_eq]
    exact Nat.ne_of_gt positive
  rw [Layout.innerRows, if_neg some]
  constructor
  · simp [Nat.add_assoc]
  · intro line mem
    obtain ⟨content, -, rfl⟩ := List.mem_map.1 mem
    exact width_padTo positive content

end

/-! ### Requests -/

/-- The lines on one side of the cursor row. -/
def Request.linesOn (request : Request) : Anchor → Int
  | .below => request.height - request.row - 1
  | .above => request.row

/-- Where there is a popup, there is room for one on its side of the cursor row. -/
lemma exists_box {request : Request} {box : Layout} (laid : request.layout = .ok box) :
    ∃ (anchor : Anchor) (available : Nat),
      box = request.box request.width.toNat request.height.toNat request.row.toNat anchor available ∧
        (available : Int) = request.linesOn anchor ∧ 3 ≤ available ∧ 4 ≤ fifths 4 request.width.toNat := by
  unfold Request.layout at laid
  split at laid
  · cases laid
  rename_i valid
  simp only [Bool.or_eq_true, decide_eq_true_eq, not_or, Int.not_le, Int.not_lt] at valid
  unfold Request.place at laid
  dsimp only at laid
  split at laid
  · cases laid
  rename_i fits
  simp only [Bool.or_eq_true, decide_eq_true_eq, not_or, Nat.not_lt] at fits
  refine ⟨_, _, (Except.ok.inj laid).symm, ?_, fits⟩
  rw [room]
  split <;> simp only [Request.linesOn] <;> omega

/-- Whatever a popup has to hold, its hint, rows of candidates and documentation fill it up to its border
and take no more lines than there are on its side of the cursor row. It is painted as rows of exactly its
inner width, every candidate shown has a place in the grid, and the selected one is shown. Candidates lack
rows only where no documentation is left, and the hint lacks lines only where the grid is down to one row
at most. -/
theorem content_fits (request : Request) (box : Layout) (laid : request.layout = .ok box)
    (inside : request.SelectsItem) :
    let hint := request.hint request.width.toNat
    let notes := request.notes request.width.toNat
    (box.header.length + box.rows + box.doc.length + 2 = box.height ∧
        (box.height : Int) ≤ request.linesOn box.anchor) ∧
      (box.innerRows.length + 2 = box.height ∧
        ∀ line ∈ box.innerRows, StyledLine.width line = box.innerWidth) ∧
      box.items.length ≤ box.rows * box.cols ∧
      (∀ s ∈ request.selected, ∃ i ∈ box.selected, ∃ item,
        box.items[i]? = some item ∧ request.items[s]? = some item) ∧
      (box.doc <+: notes ∧ (box.rows < divideUp request.items.length box.cols → box.doc = [])) ∧
      (box.header <+: hint ∧ (box.header ≠ hint → box.rows ≤ 1)) := by
  dsimp only
  obtain ⟨anchor, available, rfl, isSide, lines, wide⟩ := exists_box laid
  clear laid
  generalize request.width.toNat = width at wide ⊢
  generalize request.height.toNat = height
  generalize request.row.toNat = row
  have room : 0 < available - 2 := Nat.sub_pos_of_lt lines
  have rows := rows_box width height row anchor inside lines
  have all := height_box width height row anchor inside lines
  have header := length_header_box request width height row anchor available
  have doc := length_doc_box request width height row anchor available
  obtain ⟨drawn, even⟩ := innerRows_box width height row anchor wide
  refine ⟨⟨?_, ?_⟩, ⟨?_, even⟩, ?_, ?_, ⟨?_, ?_⟩, ?_, ?_⟩
  · rw [header, rows, doc, all]
  · rw [anchor_box, ← isSide]
    exact Int.ofNat_le.2 (height_box_le request width height row anchor available lines)
  · rw [drawn, header, rows, doc, all]
  · rw [items_box, rows, cols_box]
    exact length_shown_le width inside room
  · intro s selected
    obtain ⟨i, place, shown⟩ := selected_visibleItems selected (inside s selected)
    rw [selected_box, items_box]
    exact ⟨i, place, _, shown.trans (List.getElem?_eq_getElem (inside s selected)),
      List.getElem?_eq_getElem (inside s selected)⟩
  · rw [doc_box]
    exact List.take_prefix _ _
  · intro cut
    rw [rows, cols_box, ← rows_grid] at cut
    rw [doc_box, Request.heights, Heights.doc_fit_eq_zero _ _ _ cut, List.take_zero]
  · rw [header_box]
    exact List.take_prefix _ _
  · intro cut
    have short : (request.heights width (available - 2)).header < (request.hint width).length := by
      by_contra whole
      rw [header_box] at cut
      exact cut (List.take_of_length_le (Nat.le_of_not_lt whole))
    rw [rows]
    refine (request.wanted width).rows_fit_le_one _ _ (fun none => ?_) short
    have none : request.items = [] := by simpa using none
    rw [Request.wanted, Request.grid, none]
    rfl

/-- More candidates than there are places for, of which the last but two is selected, and documentation
for which there is no line left. -/
theorem content_fits_small_screen :
    let request : Request :=
      { width := 20, height := 9, row := 6, col := 19, selected := some 7
        items := ["sin", "cos", "tan", "log", "exp", "sqrt", "floor", "ceil", "pi", "tau"].map bytes
        doc := some (bytes "Mathematical functions and constants.") }
    ∃ box, request.layout = .ok box ∧ request.SelectsItem ∧ box.innerRows.length + 2 = box.height ∧
      box.height ≤ 6 ∧ ∃ i ∈ box.selected, box.items[i]? = some (bytes "ceil") := by
  intro request
  have laid : request.layout = .ok (request.box 20 9 6 .above 6) := by
    have side : room 9 6 = (.above, 6) := by decide
    have cells : fifths 4 20 = 16 := by decide
    rw [layout_eq_place (by decide) (by decide), Request.place]
    change (if (room 9 6).2 < 3 || fifths 4 20 < 4 then _ else Except.ok
      (request.box 20 9 6 (room 9 6).1 (room 9 6).2)) = _
    rw [side, cells]
    rfl
  have inside : request.SelectsItem := fun _ selected => Option.some.inj selected ▸ by decide
  obtain ⟨⟨-, high⟩, ⟨drawn, -⟩, -, chosen, -⟩ := content_fits request _ laid inside
  obtain ⟨i, place, item, shown, isCeil⟩ := chosen 7 rfl
  rw [anchor_box] at high
  refine ⟨_, laid, inside, drawn, Int.ofNat_le.1 high, i, place, ?_⟩
  rw [shown, ← isCeil]
  rfl

end CalcShell.Popup
