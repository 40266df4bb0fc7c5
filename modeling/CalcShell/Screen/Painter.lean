import CalcShell.Screen.Color
import CalcShell.Screen.Draw

/-!
Painting on a terminal that understands ANSI sequences. The painter keeps the rows it was told, lays
the popup over them, and writes only the rows that differ from what the terminal shows.
-/
namespace CalcShell

/-- A cell is a run of one code point. -/
abbrev ScreenRow := List Run

structure PopupBox where
  layout : Popup.Layout
  rows : List StyledLine

/-- A row of the pane. -/
structure PaneRow where
  content : StyledLine := []
  /-- What the terminal shows there, as far as it is known. -/
  shown : ScreenRow := []
  /-- The row may have changed since it was last looked at. -/
  isDirty : Bool := true
deriving Inhabited

structure Painter where
  colors : ColorScheme
  geometry : Geometry := {}
  pane : List PaneRow := []
  popup : Option PopupBox := none
  status : StyledLine := []
  isStatusDirty : Bool := true
  cursorRow : Int := 0
  cursorCol : Int := 0
  /-- Whether the terminal shows the alternate screen. -/
  hasEntered : Bool := false

namespace Painter

def csi (text : String) : Bytes := Ascii.escape :: bytes "[" ++ bytes text

def resetStyle : Bytes := csi "0m"

def clearAll : Bytes := csi "2J"

/-- Moves the cursor; rows and columns count from one. -/
def moveTo (row col : Int) : Bytes :=
  csi "" ++ Bytes.ofInt row ++ bytes ";" ++ Bytes.ofInt col ++ bytes "H"

/-- Rows above the status row. -/
def paneHeight (g : Geometry) : Nat := if 1 < g.rows then (g.rows - 1).toNat else 0

/-- Takes a size over. Rows keep their content as far as they still exist, and the terminal is taken
to show nothing. -/
def resize (p : Painter) (g : Geometry) : Bytes × Painter :=
  let kept := (p.pane.take (paneHeight g)).map fun row => ({ content := row.content } : PaneRow)
  (if p.hasEntered then resetStyle ++ clearAll else [],
    { p with
      geometry := g
      pane := kept ++ List.replicate (paneHeight g - kept.length) {}
      isStatusDirty := true })

def new (colors : ColorScheme) (g : Geometry) : Painter := (resize { colors } g).2

/-- The screen was asked for its size. -/
def measured (p : Painter) (g : Geometry) : Bytes × Painter :=
  if g.isDegenerate || g == p.geometry then ([], p) else p.resize g

/-- Switches to the alternate screen. -/
def enter (p : Painter) : Bytes × Painter :=
  if p.hasEntered then ([], p)
  else
    let (out, p) := resize { p with hasEntered := true } p.geometry
    (csi "?1049h" ++ csi "H" ++ clearAll ++ out, p)

def leave (p : Painter) : Bytes × Painter :=
  if p.hasEntered then (resetStyle ++ csi "?1049l", { p with hasEntered := false }) else ([], p)

/-- Whether a popup has a row of the screen. -/
def covers (layout : Popup.Layout) (row : Nat) : Bool :=
  layout.top ≤ row && (row : Int) < layout.top + layout.height

/-- Marks the rows under the popup. -/
def markPopup (p : Painter) : Painter :=
  match p.popup with
  | some box =>
    { p with
      pane := p.pane.mapIdx fun i row =>
        if covers box.layout i then { row with isDirty := true } else row }
  | none => p

def setPopup (p : Painter) (popup : Option PopupBox) : Painter :=
  markPopup { p.markPopup with popup }

def setLine (p : Painter) (row : Int) (content : StyledLine) : Painter :=
  match row with
  | .ofNat n => { p with pane := p.pane.modify n ({ · with content, isDirty := true }) }
  | .negSucc _ => p

/-! ### Composition -/

def blankCell (style : Style) : Run := { style, text := [Ascii.space] }

/-- A line in cells, cut or filled to a width. -/
def toCells (width : Nat) (line : StyledLine) : ScreenRow :=
  let cells := (StyledLine.cells line).take width
  cells ++ List.replicate (width - cells.length) (blankCell .default)

def borderCell (text : String) : Run := { style := .main, text := bytes text }

/-- The upper or lower border of a box. -/
def borderRow (width : Nat) (left right : String) : ScreenRow :=
  (List.range width).map fun i =>
    borderCell (if i = width - 1 then right else if i = 0 then left else "─")

/-- A row of a box between its borders; `inner` is the width of the screen. -/
def innerRow (screenWidth width : Nat) (content : Option StyledLine) : ScreenRow :=
  let cells := match content with
    | some line => (toCells screenWidth line).take (width - 2)
    | none => []
  borderCell "│" :: cells ++ List.replicate (width - 2 - cells.length) (blankCell .main) ++
    [borderCell "│"]

/-- Row `r` of a box. -/
def boxRow (screenWidth : Nat) (box : PopupBox) (r : Nat) : ScreenRow :=
  let width := box.layout.width
  if r = 0 then borderRow width "┌" "┐"
  else if r + 1 = box.layout.height then borderRow width "└" "┘"
  else innerRow screenWidth width box.rows[r - 1]?

/-- Lays cells over a row from a column on; what has no room is cut off. -/
def overlay (row : ScreenRow) (column : Nat) (cells : ScreenRow) : ScreenRow :=
  let visible := cells.take (row.length - column)
  row.take column ++ visible ++ row.drop (column + visible.length)

/-- What row `i` of the pane is to show. -/
def compose (p : Painter) (i : Nat) (content : StyledLine) : ScreenRow :=
  let width := p.geometry.cols.toNat
  let cells := toCells width content
  match p.popup with
  | some box =>
    if covers box.layout i then
      overlay cells box.layout.left (boxRow width box ((i : Int) - box.layout.top).toNat)
    else cells
  | none => cells

/-! ### Output -/

/-- The sequence that selects a style. Selections and the status bar are reversed. -/
def selectStyle (colors : ColorScheme) (style : Style) (bold : Bool) : Bytes :=
  let ink := colors.get style
  csi "0;" ++ (if bold || ink.bold then bytes "1;" else []) ++
    (if style = .selected || style = .status then bytes "7;" else []) ++
    Bytes.ofNat ink.color.foreground ++ bytes "m"

/-- Writes cells after one in the format `last`; a format is selected where it changes. -/
def writeCells (colors : ColorScheme) (last : Option Run) : ScreenRow → Bytes
  | [] => resetStyle
  | cell :: rest =>
    (if last.any (·.sameFormat cell) then [] else selectStyle colors cell.style cell.bold) ++
      cell.text ++ writeCells colors (some cell) rest

/-- Looks at a row and writes it if it has to change. -/
def presentRow (p : Painter) (i : Nat) (row : PaneRow) : Bytes × PaneRow :=
  if row.isDirty then
    let composed := p.compose i row.content
    if composed = row.shown then ([], { row with isDirty := false })
    else
      (moveTo (i + 1) 1 ++ writeCells p.colors none composed,
        { row with isDirty := false, shown := composed })
  else ([], row)

/-- Writes the status row, all but its last cell, so that the terminal never scrolls. -/
def writeStatus (p : Painter) : Bytes :=
  let cells := (toCells p.geometry.cols.toNat p.status).map fun cell =>
    if cell.style = .default then { cell with style := .status } else cell
  moveTo p.geometry.rows 1 ++ writeCells p.colors none cells.dropLast ++ csi "K"

def present (p : Painter) : Bytes × Painter :=
  if p.geometry.isDegenerate then ([], p)
  else
    let rows := p.pane.mapIdx fun i row => p.presentRow i row
    let status := if p.isStatusDirty then p.writeStatus else []
    (rows.flatMap (·.1) ++ status ++ moveTo (Geometry.wrapCount (p.cursorRow + 1)) (Geometry.wrapCount (p.cursorCol + 1)),
      { p with pane := rows.map (·.2), isStatusDirty := false })

/-- Carries out a command; the answer is what the terminal is sent. -/
def draw (p : Painter) (command : Draw) : Bytes × Painter :=
  match command with
  | .line row content => ([], p.setLine row content)
  | .status content => ([], { p with status := content, isStatusDirty := true })
  | .popup layout => ([], p.setPopup (some { layout, rows := layout.innerRows }))
  | .hidePopup => ([], p.setPopup none)
  | .cursor row col => ([], { p with cursorRow := row, cursorCol := col })
  | .present => p.present
  | .suspend _ => ([], p)
  | .measured size => p.measured size

end Painter
end CalcShell
