import CalcShell.Proofs.Screen.Record
import CalcShell.Screen.Renderer
import Mathlib.Data.List.Induction

/-! Rows, status and popup that a screen already shows are not sent to it again. What a frame looks
like is said here without regard to that, and drawing the frame makes every screen look like it that
holds what the renderer takes it to hold. -/
namespace CalcShell

/-- What a frame looks like on a screen. -/
structure Picture where
  rows : List StyledLine
  status : StyledLine
  popup : Option Popup.Layout
  /-- The place of the cursor in a frame that has one. -/
  cursor : Option (Nat × Nat)

namespace Renderer

/-! ### Rows -/

lemma length_lastRows_le (t : Transcript) (cols room : Nat)
    (style : Nat → StyledLine → StyledLine) (n : Nat) (rows : List StyledLine) :
    (t.lastRows cols room style n rows).length ≤ room := by
  induction n generalizing rows with
  | zero =>
    rw [Transcript.lastRows, List.length_drop]
    omega
  | succ n ih =>
    rw [Transcript.lastRows]
    split
    · rw [List.length_drop]
      omega
    · split
      · exact ih _
      · exact ih _

/-- A layout fills the pane. -/
lemma length_layout (r : Renderer) (input : InputRows) : (r.layout input).1.length = r.paneRows := by
  unfold layout
  dsimp only
  generalize List.drop _ input.rows = rest
  have visible := List.length_take_le r.paneRows rest
  generalize rest.take r.paneRows = visibleRows at visible ⊢
  have above := length_lastRows_le r.transcript r.geometry.cols.toNat
    (r.paneRows - visibleRows.length) (withMark r.paren) r.transcript.lines.size []
  simp only [List.length_append, List.length_replicate]
  omega

/-- The command for one row, if the screen shows something else there. -/
def changedRow (i : Nat) (row : Option StyledLine × StyledLine) : List Draw :=
  if row.1 = some row.2 then [] else [.line i row.2]

def changes (rows : List (Option StyledLine × StyledLine)) : List Draw :=
  (rows.mapIdx changedRow).flatten

lemma changedRows_eq (drawn : List (Option StyledLine)) (rows : List StyledLine) :
    changedRows drawn rows = changes (drawn.zip rows) := rfl

lemma changes_concat (rows : List (Option StyledLine × StyledLine))
    (row : Option StyledLine × StyledLine) :
    changes (rows ++ [row]) = changes rows ++ changedRow rows.length row := by
  rw [changes, List.mapIdx_concat, List.flatten_append, List.flatten_singleton]
  rfl

lemma eq_line_of_mem_changes {rows : List (Option StyledLine × StyledLine)} {command : Draw}
    (mem : command ∈ changes rows) : ∃ (i : Int) (line : StyledLine), command = .line i line := by
  obtain ⟨commands, of_row, mem⟩ := List.mem_flatten.1 mem
  obtain ⟨i, _, rfl⟩ := List.mem_mapIdx.1 of_row
  rw [changedRow] at mem
  split at mem
  · cases mem
  · exact ⟨_, _, List.mem_singleton.1 mem⟩

lemma or_getElem?_concat {α β : Type} (f : α → β) (rows : List α) (row : α) (j : Nat)
    (rest : Option β) : ((rows ++ [row])[j]?.map f).or rest =
      if j = rows.length then some (f row) else (rows[j]?.map f).or rest := by
  split
  · rename_i last
    simp [last]
  · rename_i other
    rcases Nat.lt_or_gt_of_ne other with low | high
    · rw [List.getElem?_append_left low]
    · rw [List.getElem?_eq_none (Nat.le_of_lt high), List.getElem?_eq_none (by simp; omega)]

/-- Drawing the rows that changed leaves every row as it should be; the rows are taken one more at a
time from above. -/
lemma row?_drawAll_changes {record : Record} {rows : List (Option StyledLine × StyledLine)}
    (known : ∀ (i : Nat) line new, rows[i]? = some (some line, new) → record.row? i = some line)
    (j : Nat) :
    (record.drawAll (changes rows)).row? j = (rows[j]?.map Prod.snd).or (record.row? j) := by
  induction rows using List.reverseRecOn generalizing j with
  | nil => rfl
  | append_singleton rows row ih =>
    have drawn := ih fun i line new here => known i line new <| by
      rw [List.getElem?_append_left (List.getElem?_eq_some_iff.1 here).1]
      exact here
    rw [changes_concat, Record.drawAll_append, changedRow, or_getElem?_concat]
    split
    · -- The row is shown already, and no command has touched it.
      rename_i same
      have shown := known rows.length row.2 row.2 (by simp [← same])
      rw [Record.drawAll, List.foldl_nil, drawn]
      split
      · rename_i last
        rw [last, List.getElem?_eq_none (Nat.le_refl _), shown]
        rfl
      · rfl
    · rw [Record.drawAll, List.foldl_cons, List.foldl_nil, Record.row?_draw_line, drawn]
      simp only [Int.ofNat_inj]

lemma row?_drawAll_changedRows {record : Record} {drawn : List (Option StyledLine)}
    {rows : List StyledLine} (length : drawn.length = rows.length)
    (known : ∀ (i : Nat) line, drawn[i]? = some (some line) → record.row? i = some line) {j : Nat}
    (inside : j < rows.length) :
    (record.drawAll (changedRows drawn rows)).row? j = some rows[j] := by
  rw [changedRows_eq, row?_drawAll_changes]
  · simp [inside, length]
  · intro i line new here
    exact known i line (List.getElem?_zip_eq_some.1 here).1

/-! ### Status and popup -/

def statusLine (r : Renderer) : StyledLine :=
  StyledLine.ofText (Utf8.truncate r.geometry.cols.toNat r.status) .status

/-- The popup that belongs to a frame with the cursor at a place. -/
def popup? (r : Renderer) (frame : Frame) (row col : Nat) : Option Popup.Layout :=
  match frame.popup with
  | some content =>
    if frame.isActive && !frame.isPaste then
      let layout := r.popupLayout content row col
      if 0 < layout.height then some layout else none
    else none
  | none => none

/-- The commands for a popup or for none, on a screen that may show one. -/
def popupCommands (isShown : Bool) : Option Popup.Layout → List Draw
  | some layout => [.popup layout]
  | none => if isShown then [.hidePopup] else []

lemma drawPopup_eq (r : Renderer) (frame : Frame) (row col : Nat) :
    r.drawPopup frame row col =
      (popupCommands r.isPopupShown (r.popup? frame row col), (r.popup? frame row col).isSome) := by
  change (match r.popup? frame row col with
    | some layout => ([Draw.popup layout], true)
    | none => (if r.isPopupShown then [Draw.hidePopup] else [], false)) = _
  cases r.popup? frame row col with
  | none => rfl
  | some layout => rfl

/-! ### Frames -/

def cursorCommands : Option (Nat × Nat) → List Draw
  | some (row, col) => [.cursor row col]
  | none => []

/-- What a frame looks like on any screen. -/
def picture (r : Renderer) (frame : Frame) : Picture :=
  let (r, input) := { r with lastFrame := frame }.prepare frame
  let (rows, top, skip) := r.layout input
  let row := top + input.cursorRow - skip
  { rows, status := r.statusLine, popup := r.popup? frame row input.cursorCol
    cursor := if frame.isActive then some (row, input.cursorCol) else none }

lemma exists_prepare (r : Renderer) (frame : Frame) :
    ∃ paren input, r.prepare frame = ({ r with paren }, input) := by
  unfold prepare
  split
  · exact ⟨_, _, rfl⟩
  · exact ⟨r.paren, {}, rfl⟩

lemma length_rows_picture (r : Renderer) (frame : Frame) :
    (r.picture frame).rows.length = r.paneRows := by
  obtain ⟨paren, input, prepared⟩ := exists_prepare { r with lastFrame := frame } frame
  rw [picture, prepared]
  exact length_layout _ input

lemma status_picture (r : Renderer) (frame : Frame) : (r.picture frame).status = r.statusLine := by
  obtain ⟨paren, input, prepared⟩ := exists_prepare { r with lastFrame := frame } frame
  rw [picture, prepared]
  rfl

lemma render_of_degenerate {r : Renderer} (blind : r.geometry.isDegenerate = true) (frame : Frame) :
    r.render frame = ([], { r with lastFrame := frame }) := by
  rw [render]
  exact if_pos blind

/-- The commands for a frame, and what the renderer then takes the screen to show. -/
lemma render_of_usable {r : Renderer} (usable : r.geometry.isDegenerate = false) (frame : Frame) :
    ∃ paren, r.render frame =
      (changedRows r.drawn (r.picture frame).rows ++ r.drawStatus ++
          popupCommands r.isPopupShown (r.picture frame).popup ++
          cursorCommands (r.picture frame).cursor ++ [.present],
        { r with
          lastFrame := frame, paren, drawn := (r.picture frame).rows.map some
          isStatusDirty := false, isPopupShown := (r.picture frame).popup.isSome }) := by
  obtain ⟨paren, input, prepared⟩ := exists_prepare { r with lastFrame := frame } frame
  refine ⟨paren, ?_⟩
  rw [render, if_neg (by rw [usable]; exact Bool.false_ne_true)]
  simp only [picture, prepared, drawPopup_eq]
  split <;> rfl

/-- The commands behind those for the rows touch no row, and send only what the screen may lack. -/
lemma drawAll_rest (r : Renderer) (popup : Option Popup.Layout) (cursor : Option (Nat × Nat))
    (record : Record) :
    let after := record.drawAll
      (r.drawStatus ++ popupCommands r.isPopupShown popup ++ cursorCommands cursor ++ [.present])
    after.rows = record.rows ∧
      after.status = (if r.isStatusDirty then some r.statusLine else record.status) ∧
      after.popup = popup.or (if r.isPopupShown then none else record.popup) := by
  unfold drawStatus
  cases r.isStatusDirty <;> cases popup <;> cases r.isPopupShown <;> cases cursor <;>
    exact ⟨rfl, rfl, rfl⟩

end Renderer

/-! ### Screens -/

/-- A screen looks like a picture; nothing is said of rows below it. -/
def Record.Shows (screen : Record) (picture : Picture) : Prop :=
  (∀ (i : Nat) (inside : i < picture.rows.length), screen.row? i = some picture.rows[i]) ∧
    screen.status = some picture.status ∧ screen.popup = picture.popup

namespace Renderer

/-- A screen holds what the renderer takes it to hold. -/
structure Holds (r : Renderer) (screen : Record) : Prop where
  rows : ∀ (i : Nat) line, r.drawn[i]? = some (some line) → screen.row? i = some line
  length : r.geometry.isDegenerate = false → r.drawn.length = r.paneRows
  status : r.isStatusDirty = false → screen.status = some r.statusLine
  popup : r.isPopupShown = false → screen.popup = none

variable {r : Renderer} {screen : Record}

theorem Holds.shows_render (holds : r.Holds screen) (usable : r.geometry.isDegenerate = false)
    (frame : Frame) : (screen.drawAll (r.render frame).1).Shows (r.picture frame) := by
  obtain ⟨paren, drawn⟩ := render_of_usable usable frame
  have length : r.drawn.length = (r.picture frame).rows.length :=
    (holds.length usable).trans (length_rows_picture r frame).symm
  rw [drawn]
  dsimp only
  rw [List.append_assoc, List.append_assoc, List.append_assoc, Record.drawAll_append,
    ← List.append_assoc, ← List.append_assoc]
  have rows (i : Nat) (inside : i < (r.picture frame).rows.length) :=
    row?_drawAll_changedRows length holds.rows inside
  have status : (screen.drawAll (changedRows r.drawn (r.picture frame).rows)).status =
      screen.status := by
    refine Record.drawAll_keeps (fun command mem record => ?_) screen
    obtain ⟨i, line, rfl⟩ := eq_line_of_mem_changes mem
    rfl
  have popup : (screen.drawAll (changedRows r.drawn (r.picture frame).rows)).popup =
      screen.popup := by
    refine Record.drawAll_keeps (fun command mem record => ?_) screen
    obtain ⟨i, line, rfl⟩ := eq_line_of_mem_changes mem
    rfl
  generalize screen.drawAll (changedRows r.drawn (r.picture frame).rows) = between at rows status popup ⊢
  obtain ⟨sameRows, newStatus, newPopup⟩ :=
    drawAll_rest r (r.picture frame).popup (r.picture frame).cursor between
  refine ⟨fun i inside => ?_, ?_, ?_⟩
  · rw [Record.row?, sameRows]
    exact rows i inside
  · rw [newStatus, status, status_picture]
    split
    · rfl
    · rename_i clean
      exact holds.status (Bool.eq_false_iff.2 clean)
  · rw [newPopup, popup]
    split
    · exact Option.or_none
    · rename_i hidden
      rw [holds.popup (Bool.eq_false_iff.2 hidden), Option.or_none]

theorem Holds.render (holds : r.Holds screen) (frame : Frame) :
    (r.render frame).2.Holds (screen.drawAll (r.render frame).1) := by
  cases usable : r.geometry.isDegenerate with
  | true =>
    rw [render_of_degenerate usable]
    exact ⟨holds.rows, holds.length, holds.status, holds.popup⟩
  | false =>
    obtain ⟨rows, status, popup⟩ := holds.shows_render usable frame
    generalize screen.drawAll (r.render frame).1 = after at rows status popup ⊢
    obtain ⟨paren, drawn⟩ := render_of_usable usable frame
    rw [drawn]
    refine ⟨fun i line here => ?_, fun _ => ?_, fun _ => ?_, fun hidden => ?_⟩
    · rw [List.getElem?_map, Option.map_eq_some_iff] at here
      obtain ⟨_, here, same⟩ := here
      obtain ⟨inside, rfl⟩ := List.getElem?_eq_some_iff.1 here
      rw [rows i inside, same]
    · exact List.length_map _ |>.trans (length_rows_picture r frame)
    · rw [status, status_picture]
      rfl
    · rw [popup]
      exact Option.not_isSome_iff_eq_none.1 (Bool.eq_false_iff.1 hidden)

lemma holds_invalidate (popup : r.isPopupShown = false → screen.popup = none) :
    r.invalidate.Holds screen where
  rows i line here := by
    change (List.replicate r.paneRows none)[i]? = some (some line) at here
    rw [List.getElem?_replicate] at here
    split at here <;> cases here
  length _ := List.length_replicate
  status clean := by cases clean
  popup := popup

end Renderer
end CalcShell
