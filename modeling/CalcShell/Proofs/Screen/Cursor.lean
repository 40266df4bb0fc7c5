import CalcShell.Proofs.Calc.Tokens
import CalcShell.Proofs.Screen.Brackets
import CalcShell.Proofs.Screen.Redraw

/-! The cursor of a frame stands on the character that is being edited. Its place is computed from the
width of the text left of it, and the rows are dealt out cell by cell; both agree as long as the runs
of the edited line cut no character. -/
namespace CalcShell

open Utf8 (encode)

namespace Renderer

variable {r : Renderer} {frame : Frame}

/-! ### The edited line -/

lemma width_prompt (isContinuation : Bool) :
    Utf8.width (prompt isContinuation).text = promptWidth isContinuation := by
  cases isContinuation <;> decide +kernel

lemma isValid_prompt (isContinuation : Bool) : Utf8.IsValid (prompt isContinuation).text := by
  apply Utf8.isValid_of_ascii
  cases isContinuation <;> decide +kernel

/-- A byte of the edited text on the line behind the prompt. -/
lemma getElem?_behind_prompt {live : StyledLine} {front back : Bytes} {b : UInt8}
    (shows : live.plain = (prompt frame.isContinuation).text ++ frame.text)
    (text : frame.text = front ++ b :: back) :
    live.plain[promptWidth frame.isContinuation + front.length]? = some b := by
  rw [shows, text, promptWidth, List.getElem?_append_right (Nat.le_add_right _ _),
    Nat.add_sub_cancel_left, List.getElem?_append_right (Nat.le_refl _), Nat.sub_self]
  rfl

/-- Marking brackets cuts no character of the edited line and leaves its text alone. -/
lemma isValid_matchParen {live : StyledLine} (valid : live.IsValid)
    (shows : live.plain = (prompt frame.isContinuation).text ++ frame.text) :
    (r.matchParen frame live).1.IsValid ∧ (r.matchParen frame live).1.plain = live.plain := by
  unfold matchParen
  dsimp only
  split
  · exact ⟨valid, rfl⟩
  · rename_i close left atCursor
    split
    · exact ⟨valid, rfl⟩
    · rename_i opening closes
      obtain ⟨asciiClose, asciiOpening⟩ := lt_of_openingFor? closes
      have before : frame.text.take frame.cursor = left.reverse ++ [close] := by
        rw [← List.reverse_cons, ← atCursor, List.reverse_reverse]
      have text : frame.text = left.reverse ++ close :: frame.text.drop frame.cursor := by
        rw [← List.singleton_append, ← List.append_assoc, ← before, List.take_append_drop]
      have here := getElem?_behind_prompt shows text
      rw [List.length_reverse] at here
      split
      · rename_i place found
        obtain ⟨behind, rest, rfl, rfl⟩ := scanBack_eq_inl found
        have openingText : frame.text = rest.reverse ++ opening ::
            (behind.reverse ++ close :: frame.text.drop frame.cursor) := by
          conv_lhs => rw [text]
          simp
        have there := getElem?_behind_prompt shows openingText
        rw [List.length_reverse] at there
        have first := valid.highlight there asciiOpening .paren
        have same := StyledLine.plain_highlight there .paren
        rw [← same] at here
        exact ⟨first.highlight here asciiClose .paren,
          (StyledLine.plain_highlight here .paren).trans same⟩
      · split
        · exact ⟨valid.highlight here asciiClose .paren, StyledLine.plain_highlight here .paren⟩
        · exact ⟨valid, rfl⟩

lemma isValid_highlight {text : Bytes} (valid : Utf8.IsValid text)
    (lexes : r.tokenize = Calc.highlight) :
    (r.highlight text).IsValid ∧ (r.highlight text).plain = text := by
  unfold highlight
  split
  · rename_i readsBack
    rw [Bool.and_eq_true, beq_iff_eq] at readsBack
    refine ⟨?_, readsBack.2⟩
    rw [lexes]
    exact Calc.isValid_highlight valid
  · exact ⟨StyledLine.isValid_ofText valid _, StyledLine.plain_ofText _ _⟩

/-- The edited line consists of whole characters, those of the prompt and of the text. -/
lemma isValid_liveLine (valid : Utf8.IsValid frame.text)
    (lexes : frame.isPaste = true ∨ r.tokenize = Calc.highlight) :
    (r.liveLine frame).1.IsValid ∧
      (r.liveLine frame).1.plain = (prompt frame.isContinuation).text ++ frame.text := by
  unfold liveLine
  dsimp only
  split
  · refine ⟨StyledLine.isValid_cons.2 ⟨isValid_prompt _, StyledLine.isValid_ofText valid _⟩, ?_⟩
    rw [StyledLine.plain_cons, StyledLine.plain_ofText]
  · rename_i typed
    obtain ⟨whole, readsBack⟩ := isValid_highlight valid (lexes.resolve_left typed)
    have shows : StyledLine.plain (prompt frame.isContinuation :: r.highlight frame.text) =
        (prompt frame.isContinuation).text ++ frame.text := by
      rw [StyledLine.plain_cons, readsBack]
    obtain ⟨marked, same⟩ := isValid_matchParen (r := r)
      (StyledLine.isValid_cons.2 ⟨isValid_prompt _, whole⟩) shows
    exact ⟨marked, same.trans shows⟩

/-- Behind as many cells as the prompt and the text left of the cursor take, the cells are the
characters right of the cursor. -/
lemma cells_right_of_cursor {live : StyledLine} {left right : List Char} (valid : live.IsValid)
    (shows : live.plain = (prompt frame.isContinuation).text ++ encode (left ++ right)) :
    (live.cells.drop (promptWidth frame.isContinuation + left.length)).map Run.text =
      right.map String.utf8EncodeChar := by
  obtain ⟨head, isHead⟩ := isValid_prompt frame.isContinuation
  have length : promptWidth frame.isContinuation = head.length := by
    rw [← width_prompt, ← isHead, Utf8.width_encode]
  rw [List.map_drop, StyledLine.map_text_cells valid, shows, ← isHead, ← Utf8.encode_append,
    Utf8.chunks_encode, ← List.map_drop, length, ← List.append_assoc, ← List.length_append,
    List.drop_left]

/-! ### Its rows -/

/-- The row with the cursor, also where the cursor stands behind the last row that is full. -/
lemma getElem?_rows_inputRows (frame : Frame) {cols : Nat} (positive : 0 < cols) (live : StyledLine) :
    let input := inputRows cols frame live
    input.rows[input.cursorRow]? =
      some (StyledLine.merge ((live.cells.drop (input.cursorRow * cols)).take cols)) := by
  unfold inputRows
  dsimp only
  generalize (promptWidth frame.isContinuation + Utf8.width (frame.text.take frame.cursor)) / cols = n
  have wrapped : (live.wrap cols)[n]? = _ := StyledLine.getElem?_wrap positive n
  by_cases inside : n = 0 ∨ n * cols < live.cells.length
  · rw [if_pos inside] at wrapped
    rw [List.getElem?_append_left (List.getElem?_eq_some_iff.1 wrapped).1, wrapped]
  · rw [if_neg inside, List.getElem?_eq_none_iff] at wrapped
    have beyond : live.cells.drop (n * cols) = [] := List.drop_eq_nil_iff.2 (by omega)
    rw [List.getElem?_append_right wrapped, List.getElem?_replicate, if_pos (by omega), beyond,
      List.take_nil]
    rfl

/-- From the cursor on its row shows the text right of it, as far as there is room. -/
lemma cells_cursorRow {cols : Nat} {live : StyledLine} {left right : List Char}
    (valid : live.IsValid)
    (shows : live.plain = (prompt frame.isContinuation).text ++ encode (left ++ right))
    (before : frame.text.take frame.cursor = encode left) :
    let input := inputRows cols frame live
    let row := StyledLine.merge ((live.cells.drop (input.cursorRow * cols)).take cols)
    (row.cells.drop input.cursorCol).map Run.text =
      (right.map String.utf8EncodeChar).take (cols - input.cursorCol) := by
  intro input row
  have dealt : row.cells = (live.cells.drop (input.cursorRow * cols)).take cols := by
    apply StyledLine.cells_merge_of_isCell
    intro cell mem
    exact StyledLine.isCell_of_mem_cells valid (List.mem_of_mem_drop (List.mem_of_mem_take mem))
  have place : input.cursorRow * cols + input.cursorCol =
      promptWidth frame.isContinuation + left.length := by
    have whole := Nat.div_add_mod' (promptWidth frame.isContinuation +
      Utf8.width (frame.text.take frame.cursor)) cols
    rw [before, Utf8.width_encode] at whole
    change (_ + Utf8.width (frame.text.take frame.cursor)) / cols * cols +
      (_ + Utf8.width (frame.text.take frame.cursor)) % cols = _
    rw [before, Utf8.width_encode, whole]
  rw [dealt, List.drop_take, List.drop_drop, place, List.map_take,
    cells_right_of_cursor valid shows]

/-- The pane shows the row with the cursor. -/
lemma getElem?_layout (r : Renderer) (input : InputRows)
    (inside : input.cursorRow < input.rows.length) :
    let laid := r.layout input
    let row := laid.2.1 + input.cursorRow - laid.2.2
    row < r.paneRows ∧ laid.1[row]? = input.rows[input.cursorRow]? := by
  have room : 0 < r.paneRows := by
    unfold paneRows Geometry.paneRows
    split
    · omega
    · exact Nat.one_pos
  unfold layout
  dsimp only
  generalize isSkip : min (input.rows.length - r.paneRows) input.cursorRow = skip
  generalize isVisible : (input.rows.drop skip).take r.paneRows = visible
  have above := length_lastRows_le r.transcript r.geometry.cols.toNat
    (r.paneRows - visible.length) (withMark r.paren) r.transcript.lines.size []
  generalize r.transcript.lastRows _ _ _ _ _ = rows at above ⊢
  have length : visible.length = min r.paneRows (input.rows.length - skip) := by
    rw [← isVisible, List.length_take, List.length_drop]
  have shown : input.cursorRow - skip < visible.length := by omega
  have place : rows.length + input.cursorRow - skip = rows.length + (input.cursorRow - skip) := by omega
  refine ⟨by omega, ?_⟩
  rw [place, List.getElem?_append_left (by rw [List.length_append]; omega),
    List.getElem?_append_right (Nat.le_add_right _ _), Nat.add_sub_cancel_left, ← isVisible,
    List.getElem?_take_of_lt (by omega), List.getElem?_drop]
  congr 1
  omega

/-- A picture of the line being edited is laid out with the brackets that it marks. -/
lemma picture_of_active (active : frame.isActive = true) :
    let live := ({ r with lastFrame := frame }.liveLine frame)
    let input := inputRows r.geometry.cols.toNat frame live.1
    let laid := ({ r with lastFrame := frame, paren := live.2 } : Renderer).layout input
    (r.picture frame).rows = laid.1 ∧
      (r.picture frame).cursor = some (laid.2.1 + input.cursorRow - laid.2.2, input.cursorCol) := by
  unfold picture prepare
  simp only [if_pos active, and_self]

variable {left right : List Char}

/-- In a picture the cursor stands inside the pane, and from there its row shows the text right of
it. -/
theorem cursor_picture (usable : r.geometry.isDegenerate = false) (active : frame.isActive = true)
    (lexes : frame.isPaste = true ∨ r.tokenize = Calc.highlight)
    (text : frame.text = encode (left ++ right)) (cursor : frame.cursor = (encode left).length) :
    ∃ row col line, (r.picture frame).cursor = some (row, col) ∧ row < r.paneRows ∧
      (col : Int) < r.geometry.cols ∧ (r.picture frame).rows[row]? = some line ∧
      (line.cells.drop col).map Run.text =
        (right.map String.utf8EncodeChar).take (r.geometry.cols.toNat - col) := by
  have positive : 0 < r.geometry.cols.toNat := by
    rw [Geometry.isDegenerate, Bool.or_eq_false_iff, decide_eq_false_iff_not,
      decide_eq_false_iff_not] at usable
    omega
  have before : frame.text.take frame.cursor = encode left := by
    rw [text, cursor, Utf8.encode_append, List.take_left]
  obtain ⟨valid, shows⟩ := isValid_liveLine (r := { r with lastFrame := frame })
    (text ▸ Utf8.isValid_encode _) lexes
  rw [text] at shows
  obtain ⟨rows, place⟩ := picture_of_active (r := r) active
  generalize ({ r with lastFrame := frame }.liveLine frame) = live at valid shows rows place
  have here := getElem?_rows_inputRows frame positive live.1
  obtain ⟨inside, shown⟩ := getElem?_layout { r with lastFrame := frame, paren := live.2 } _
    (List.getElem?_eq_some_iff.1 here).1
  refine ⟨_, _, _, place, inside, ?_, (congrArg (·[_]?) rows).trans (shown.trans here),
    cells_cursorRow valid shows before⟩
  have := Nat.mod_lt (promptWidth frame.isContinuation + Utf8.width (frame.text.take frame.cursor))
    positive
  change ((_ % _ : Nat) : Int) < _
  omega

/-- Drawing a frame with a cursor puts the cursor of the screen where its picture has it. -/
lemma cursor_drawAll_render (usable : r.geometry.isDegenerate = false) {row col : Nat}
    (place : (r.picture frame).cursor = some (row, col)) (screen : Record) :
    (screen.drawAll (r.render frame).1).cursor = some ((row : Int), (col : Int)) := by
  obtain ⟨paren, drawn⟩ := render_of_usable usable frame
  rw [drawn, place]
  dsimp only
  rw [Record.drawAll_append, Record.drawAll_append]
  rfl

end Renderer

namespace Display

lemma tokenize_perform (d : Display) (call : Call) :
    (d.perform call).renderer.tokenize = d.renderer.tokenize := by
  have render (frame : Frame) : (d.render frame).renderer.tokenize = d.renderer.tokenize := by
    rw [Display.render]
    cases usable : d.renderer.geometry.isDegenerate with
    | true => rw [Renderer.render_of_degenerate usable]
    | false =>
      obtain ⟨paren, drawn⟩ := Renderer.render_of_usable usable frame
      rw [drawn]
  cases call with
  | setGeometry geometry =>
    rw [Display.perform, Renderer.setGeometry]
    split <;> rfl
  | rewind mark =>
    rw [Display.perform, Renderer.rewind]
    split <;> rfl
  | setStatus text =>
    rw [Display.perform, Renderer.setStatus]
    split <;> rfl
  | render frame => exact render frame
  | redraw => exact render d.renderer.lastFrame
  | invalidate => rfl
  | beginInput _ => rfl
  | commitInput _ _ => rfl
  | appendOutput _ _ => rfl
  | clearScreen => rfl
  | setSyntax _ => rfl

lemma tokenize_run (d : Display) (calls : List Call) :
    (d.run calls).renderer.tokenize = d.renderer.tokenize := by
  induction calls generalizing d with
  | nil => rfl
  | cons call calls ih => exact (ih (d.perform call)).trans (tokenize_perform d call)

lemma tokenize_new (tokenize : Bytes → StyledLine) (geometry : Geometry) :
    (new tokenize geometry).renderer.tokenize = tokenize := by
  rw [new, Renderer.new, Renderer.setGeometry]
  split <;> rfl

/-- After any calls, drawing a frame that is edited puts the cursor into the pane, on the character
right of it; at the end of the text its row has nothing from there on. -/
theorem cursor_on_character (tokenize : Bytes → StyledLine) (geometry : Geometry)
    (calls : List Call) (frame : Frame) (left right : List Char) (active : frame.isActive = true)
    (lexes : frame.isPaste = true ∨ tokenize = Calc.highlight)
    (text : frame.text = encode (left ++ right)) (cursor : frame.cursor = (encode left).length) :
    let d := (new tokenize geometry).run calls
    let shown := (d.perform (.render frame)).screen
    d.renderer.geometry.isDegenerate = false →
      ∃ (row col : Nat) (line : StyledLine), shown.cursor = some ((row : Int), (col : Int)) ∧
        row < d.renderer.paneRows ∧ (col : Int) < d.renderer.geometry.cols ∧
        shown.row? row = some line ∧
        (∀ c rest, right = c :: rest →
          line.cells[col]?.map Run.text = some (String.utf8EncodeChar c)) ∧
        (right = [] → line.cells.length ≤ col) := by
  intro d shown usable
  have sound : d.Sound := (sound_new tokenize geometry).run calls
  have same : d.renderer.tokenize = tokenize :=
    (tokenize_run _ calls).trans (tokenize_new tokenize geometry)
  obtain ⟨row, col, line, place, inside, within, there, cells⟩ :=
    Renderer.cursor_picture usable active (same ▸ lexes) text cursor
  obtain ⟨rows, -, -⟩ := sound.holds.shows_render usable frame
  obtain ⟨bound, rfl⟩ := List.getElem?_eq_some_iff.1 there
  refine ⟨row, col, _, Renderer.cursor_drawAll_render usable place d.screen, inside, within,
    rows row bound, ?_, ?_⟩
  · rintro c rest rfl
    have first := congrArg List.head? cells
    rw [List.map_drop, List.head?_drop, List.getElem?_map, List.map_cons, List.head?_take,
      if_neg (by omega)] at first
    exact first
  · rintro rfl
    rw [List.map_nil, List.take_nil, List.map_eq_nil_iff, List.drop_eq_nil_iff] at cells
    exact cells

/-- Between brackets, on the second row of a line that is too long for the screen. -/
theorem cursor_on_wrapped_character :
    let d := (new Calc.highlight ⟨4, 5⟩).run [.appendOutput (bytes "1\n2") false]
    let frame : Frame :=
      { text := encode "(aé)".toList, cursor := (encode "(a".toList).length }
    let shown := (d.perform (.render frame)).screen
    ∃ (row col : Nat) (line : StyledLine), shown.cursor = some ((row : Int), (col : Int)) ∧ row < 3 ∧
      (col : Int) < 5 ∧ shown.row? row = some line ∧
      line.cells[col]?.map Run.text = some (String.utf8EncodeChar 'é') := by
  intro d frame shown
  obtain ⟨row, col, line, place, inside, within, there, on, -⟩ :=
    cursor_on_character Calc.highlight ⟨4, 5⟩ [.appendOutput (bytes "1\n2") false] frame
      ['(', 'a'] ['é', ')'] rfl (.inr rfl) rfl rfl rfl
  exact ⟨row, col, line, place, inside, within, there, on 'é' [')'] rfl⟩

end Display
end CalcShell
