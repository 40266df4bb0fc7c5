import CalcShell.Completion.Engine
import CalcShell.Screen.Draw
import CalcShell.Screen.Transcript

/-!
Rendering of the transcript with the line being edited below it. Rows, status and popup that a
screen already shows are not sent to it again.
-/
namespace CalcShell

open Completion (PopupContent)

/-- What is wanted on the screen besides the transcript. -/
structure Frame where
  /-- Whether a line is being edited. -/
  isActive : Bool := true
  text : Bytes := []
  /-- Bytes of the text before the cursor. -/
  cursor : Nat := 0
  isContinuation : Bool := false
  isPaste : Bool := false
  popup : Option PopupContent := none
deriving Repr, Inhabited

/-- A bracket that is highlighted on a line of the transcript. -/
structure ParenMark where
  /-- Number of the line. -/
  line : Nat
  column : Nat
  /-- The line without the highlight. -/
  plain : StyledLine
deriving DecidableEq, Repr

structure Renderer where
  tokenize : Bytes → StyledLine
  showsTokens : Bool := true
  geometry : Geometry := {}
  transcript : Transcript := {}
  /-- Number of the first line of the statement being edited. -/
  statementStart : Nat := 0
  paren : Option ParenMark := none
  /-- The rows that the screen is known to show. -/
  drawn : List (Option StyledLine) := []
  status : Bytes := []
  isStatusDirty : Bool := true
  isPopupShown : Bool := false
  lastFrame : Frame := {}

namespace Renderer

def prompt (isContinuation : Bool) : Run :=
  if isContinuation then { style := .promptMore, text := bytes "... " }
  else { style := .prompt, text := bytes ">>> " }

def promptWidth (isContinuation : Bool) : Nat := (prompt isContinuation).text.length

def paneRows (r : Renderer) : Nat := r.geometry.paneRows

/-- Forgets what the screen shows, so that everything is sent again. -/
def invalidate (r : Renderer) : Renderer :=
  { r with drawn := List.replicate r.paneRows none, isStatusDirty := true }

/-- Takes a size over; a degenerate one is ignored. -/
def setGeometry (r : Renderer) (geometry : Geometry) : Renderer :=
  if geometry.isDegenerate then r else invalidate { r with geometry }

def new (tokenize : Bytes → StyledLine) (geometry : Geometry) : Renderer :=
  setGeometry { tokenize } geometry

/-- The next line is the first one of a statement, or goes on with one. -/
def beginInput (r : Renderer) (isContinuation : Bool) : Renderer :=
  { r with
    statementStart := if isContinuation then r.statementStart else r.transcript.mark
    lastFrame := { isContinuation } }

/-- A text in its styles, unless its tokens do not read back as the text. -/
def highlight (r : Renderer) (text : Bytes) : StyledLine :=
  if r.showsTokens && StyledLine.plain (r.tokenize text) == text then r.tokenize text
  else StyledLine.ofText text

/-- Adds lines to the transcript. A mark on a line that is dropped is dropped with it. -/
def push (r : Renderer) (lines : List TranscriptLine) : Renderer :=
  let transcript := r.transcript.pushAll lines
  { r with transcript, paren := r.paren.filter (transcript.first ≤ ·.line) }

/-- Moves the line that was edited into the transcript. -/
def commitInput (r : Renderer) (text : Bytes) (isContinuation : Bool) : Renderer :=
  let line : TranscriptLine :=
    { styled := prompt isContinuation :: r.highlight text
      source := some text, promptWidth := promptWidth isContinuation }
  { push { r with paren := none } [line] with lastFrame := { r.lastFrame with isActive := false } }

def appendOutput (r : Renderer) (text : Bytes) (isError : Bool) : Renderer :=
  r.push (Transcript.outputLines text isError)

/-- Drops the transcript. -/
def clearScreen (r : Renderer) : Renderer :=
  invalidate { r with transcript := r.transcript.clear, paren := none }

/-- Drops the lines with the number `mark` and above. -/
def rewind (r : Renderer) (mark : Nat) : Renderer :=
  let mark := max mark r.transcript.first
  if r.transcript.mark ≤ mark then r
  else
    { r with
      transcript := r.transcript.rewind mark
      statementStart := min r.statementStart mark
      paren := none }

def setStatus (r : Renderer) (text : Bytes) : Renderer :=
  if text = r.status then r else { r with status := text, isStatusDirty := true }

/-! ### Matching brackets -/

def openingFor? (close : UInt8) : Option UInt8 :=
  if close = Ascii.code ')' then some (Ascii.code '(')
  else if close = 0x5D then some (Ascii.code '[')
  else if close = 0x7D then some 0x7B
  else none

/-- Searches a text, given from its last byte back, for the bracket that closes `depth` levels. The
answer is its place or the levels that are left. -/
def scanBack (opening close : UInt8) (depth : Nat) : Bytes → Nat ⊕ Nat
  | [] => .inr depth
  | b :: rest =>
    if b = close then scanBack opening close (depth + 1) rest
    else if b = opening then
      if depth = 1 then .inl rest.length else scanBack opening close (depth - 1) rest
    else scanBack opening close depth rest

/-- Searches the input lines below number `below` down to the start of the statement. -/
def scanLines (r : Renderer) (opening close : UInt8) : (depth n : Nat) → Option ParenMark
  | _, 0 => none
  | depth, n + 1 =>
    let number := r.transcript.first + n
    if number < r.statementStart then none
    else
      match r.transcript.lines[n]? with
      | some { styled, source := some source, promptWidth } =>
        match scanBack opening close depth source.reverse with
        | .inl place => some { line := number, column := promptWidth + place, plain := styled }
        | .inr depth => r.scanLines opening close depth n
      | _ => r.scanLines opening close depth n

/-- Highlights the bracket left of the cursor and its partner on the live line or on an earlier line
of the statement. -/
def matchParen (r : Renderer) (frame : Frame) (live : StyledLine) :
    StyledLine × Option ParenMark :=
  let width := promptWidth frame.isContinuation
  match (frame.text.take frame.cursor).reverse with
  | [] => (live, none)
  | close :: left =>
    match openingFor? close with
    | none => (live, none)
    | some opening =>
      let marked (line : StyledLine) := line.highlight (width + left.length) .paren
      match scanBack opening close 1 left with
      | .inl place => (marked (live.highlight (width + place) .paren), none)
      | .inr depth =>
        match r.scanLines opening close depth r.transcript.lines.size with
        | some mark => (marked live, some mark)
        | none => (live, none)

/-! ### Layout -/

/-- The rows of the line being edited and the place of the cursor among them. -/
structure InputRows where
  rows : List StyledLine := []
  cursorRow : Nat := 0
  cursorCol : Nat := 0

/-- The line being edited, and the bracket that it marks in the transcript. -/
def liveLine (r : Renderer) (frame : Frame) : StyledLine × Option ParenMark :=
  let head := prompt frame.isContinuation
  if frame.isPaste then (head :: StyledLine.ofText frame.text, r.paren)
  else r.matchParen frame (head :: r.highlight frame.text)

def inputRows (cols : Nat) (frame : Frame) (live : StyledLine) : InputRows :=
  let place := promptWidth frame.isContinuation + Utf8.width (frame.text.take frame.cursor)
  let rows := live.wrap cols
  { rows := rows ++ List.replicate (place / cols + 1 - rows.length) []
    cursorRow := place / cols, cursorCol := place % cols }

/-- A line of the transcript with its mark, if it has one. -/
def withMark (mark : Option ParenMark) (number : Nat) (line : StyledLine) : StyledLine :=
  match mark with
  | some mark => if mark.line = number then line.highlight mark.column .paren else line
  | none => line

/-- The rows of the pane: the end of the transcript above the line being edited, of which the row with
the cursor is always visible. Also tells where the edited line begins and how many rows of it are
left out above. -/
def layout (r : Renderer) (input : InputRows) : List StyledLine × Nat × Nat :=
  let pane := r.paneRows
  let skip := min (input.rows.length - pane) input.cursorRow
  let visible := (input.rows.drop skip).take pane
  let above := r.transcript.lastRows r.geometry.cols.toNat (pane - visible.length)
    (withMark r.paren) r.transcript.lines.size []
  let rows := above ++ visible
  (rows ++ List.replicate (pane - rows.length) [], above.length, skip)

/-- Commands for the rows that differ from what the screen shows. -/
def changedRows (drawn : List (Option StyledLine)) (rows : List StyledLine) : List Draw :=
  ((drawn.zip rows).mapIdx fun i (old, new) =>
    if old = some new then [] else [Draw.line i new]).flatten

def popupRequest (r : Renderer) (content : PopupContent) (row col : Nat) : Popup.Request :=
  { width := r.geometry.cols, height := r.paneRows, row, col
    signature := content.signature, items := content.items, selected := content.selected
    doc := content.doc }

/-- The popup for some content: the full one or, where that has no room, the smallest one. -/
def popupLayout (r : Renderer) (content : PopupContent) (row col : Nat) : Popup.Layout :=
  match (r.popupRequest content row col).layout with
  | .ok layout => layout
  | .error _ => Popup.minimal r.geometry.cols r.paneRows row col

/-- The commands for the popup, and whether it is shown after them. -/
def drawPopup (r : Renderer) (frame : Frame) (row col : Nat) : List Draw × Bool :=
  let wanted : Option Popup.Layout :=
    match frame.popup with
    | some content =>
      if frame.isActive && !frame.isPaste then
        let layout := r.popupLayout content row col
        if 0 < layout.height then some layout else none
      else none
    | none => none
  match wanted with
  | some layout => ([.popup layout], true)
  | none => (if r.isPopupShown then [.hidePopup] else [], false)

def drawStatus (r : Renderer) : List Draw :=
  if r.isStatusDirty then
    [.status (StyledLine.ofText (Utf8.truncate r.geometry.cols.toNat r.status) .status)]
  else []

/-- The renderer with the bracket that a frame marks, and the rows of its line. -/
def prepare (r : Renderer) (frame : Frame) : Renderer × InputRows :=
  if frame.isActive then
    let (live, paren) := r.liveLine frame
    ({ r with paren }, inputRows r.geometry.cols.toNat frame live)
  else (r, {})

/-- Brings the screen up to a frame. -/
def render (r : Renderer) (frame : Frame) : List Draw × Renderer :=
  let r := { r with lastFrame := frame }
  if r.geometry.isDegenerate then ([], r)
  else
    let (r, input) := r.prepare frame
    let (rows, top, skip) := r.layout input
    let row := top + input.cursorRow - skip
    let (popup, isPopupShown) := r.drawPopup frame row input.cursorCol
    let cursor : List Draw := if frame.isActive then [.cursor row input.cursorCol] else []
    (changedRows r.drawn rows ++ r.drawStatus ++ popup ++ cursor ++ [.present],
      { r with drawn := rows.map some, isStatusDirty := false, isPopupShown })

/-- Draws the last frame again. -/
def redraw (r : Renderer) : List Draw × Renderer := r.render r.lastFrame

end Renderer
end CalcShell
