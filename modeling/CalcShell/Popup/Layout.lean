import CalcShell.Completion.Signature
import CalcShell.Screen.Geometry
import CalcShell.Text.WordWrap

/-!
Size, place and content of the completion popup. It opens towards the larger part of the screen
beside the cursor row. Where space is short, documentation lines go first, then rows of
candidates, then lines of the argument hint.
-/
namespace CalcShell

namespace Popup

inductive Anchor where
  | below | above
deriving DecidableEq, Repr, Inhabited

namespace Anchor

def label : Anchor → String
  | .below => "below"
  | .above => "above"

end Anchor

structure Request where
  width : Int := 0
  height : Int := 0
  row : Int := 0
  col : Int := 0
  signature : Option Signature := none
  items : List Bytes := []
  selected : Option Nat := none
  doc : Option Bytes := none
deriving Repr, Inhabited

/-- A box with its border of one cell, and what it holds. -/
structure Layout where
  top : Int := 0
  left : Nat := 0
  height : Nat := 0
  width : Nat := 0
  rows : Nat := 0
  cols : Nat := 0
  columnWidth : Nat := 0
  anchor : Anchor := .below
  header : List StyledLine := []
  items : List Bytes := []
  selected : Option Nat := none
  doc : List Bytes := []
  /-- Not all candidates are shown. -/
  isTruncated : Bool := false
  /-- The box has no room for any content. -/
  isDegraded : Bool := false
deriving DecidableEq, Repr, Inhabited

def Layout.innerWidth (layout : Layout) : Nat := layout.width - 2

inductive LayoutError where
  | invalidGeometry
  | noRoom
deriving DecidableEq, Repr

def LayoutError.message : LayoutError → Bytes
  | .invalidGeometry => bytes "Invalid popup geometry"
  | .noRoom => bytes "No room for the popup"

/-- Puts pieces on lines of at most `width` cells, breaking only between pieces. -/
def packPieces (width : Nat) (current : StyledLine) (used : Nat) :
    List StyledLine → List StyledLine
  | [] => if current.isEmpty then [] else [current]
  | piece :: rest =>
    let w := StyledLine.width piece
    if 0 < used && width < used + w then current :: packPieces width piece w rest
    else packPieces width (current ++ piece) (used + w) rest

/-- The lines of an argument hint; a piece wider than a line is broken between cells. -/
def headerLines (width : Nat) (pieces : List StyledLine) : List StyledLine :=
  (packPieces width [] 0 pieces).flatMap (StyledLine.wrap · width)

/-- Rows and columns of a grid, and the width of a column. -/
structure Grid where
  rows : Nat := 0
  cols : Nat := 0
  columnWidth : Nat := 0
deriving DecidableEq, Repr

def divideUp (n d : Nat) : Nat := (n + d - 1) / d

def gridFor (innerWidth : Nat) (items : List Bytes) : Grid :=
  if items.isEmpty then {}
  else
    let longest := (items.map Utf8.width).foldl max 0
    let columnWidth := min (longest + 1) (max 2 innerWidth)
    let cols := max 1 (innerWidth / columnWidth)
    { rows := divideUp items.length cols, cols, columnWidth }

/-- Lines given to the hint, the grid and the documentation. -/
structure Heights where
  header : Nat
  rows : Nat
  doc : Nat
deriving DecidableEq, Repr

/-- Cuts the wanted heights down to `room` lines. -/
def Heights.fit (wanted : Heights) (room : Nat) (hasItems : Bool) : Heights :=
  let doc :=
    if room < wanted.header + wanted.rows + wanted.doc then room - wanted.header - wanted.rows
    else wanted.doc
  if wanted.header + wanted.rows ≤ room then { wanted with doc }
  else
    let header :=
      if hasItems then if room ≤ wanted.header then room - 1 else wanted.header
      else min wanted.header room
    { header, rows := min wanted.rows (room - header), doc }

/-- The candidates shown in a grid, the selected one's place among them, and whether some are
left out. The last place of a grid that is too small shows an ellipsis. -/
def visibleItems (slots : Nat) (items : List Bytes) (selected : Option Nat) :
    List Bytes × Option Nat × Bool :=
  if slots = 0 || items.length ≤ slots then (items, selected, false)
  else
    let chosen := selected.getD 0
    if slots = 1 then
      (items[min chosen (items.length - 1)]?.toList, selected.map fun _ => 0, true)
    else
      let start := if chosen < slots - 1 then 0 else chosen - (slots - 1) + 1
      ((items.drop start).take (slots - 1) ++ [bytes "..."],
        selected.map (· - start), true)

/-- Width of the widest content, at least one cell. -/
def contentWidth (header : List StyledLine) (shown : Nat) (grid : Grid) (doc : List Bytes) : Nat :=
  let items := if 0 < shown then min shown grid.cols * grid.columnWidth else 0
  ((header.map StyledLine.width ++ items :: doc.map Utf8.width)).foldl max 1

/-- The side of the cursor row with more lines, and the number of these lines. -/
def room (height row : Nat) : Anchor × Nat :=
  if Geometry.wrapCount (row * 2) < height then (.below, height - row - 1) else (.above, row)

/-- So many fifths of a width, as far as that can be counted. -/
def fifths (n width : Nat) : Nat := ((Geometry.wrapCount (width * n)).tdiv 5).toNat

/-- The place nearest to `x` from zero up to a limit. -/
def clampTo (limit x : Int) : Nat := (min x limit).toNat

/-- The popup on one side of the cursor row, with so many lines there. -/
def Request.box (request : Request) (width height row : Nat) (anchor : Anchor)
    (available : Nat) : Layout :=
  let maxWidth := fifths 4 width
  let inner := maxWidth - 2
  let header := match request.signature with
    | some signature => headerLines (max 1 (min (fifths 3 width) inner)) signature.pieces
    | none => []
  let grid := gridFor inner request.items
  let doc := WordWrap.wrap (request.doc.getD []) inner
  let heights : Heights :=
    Heights.fit { header := header.length, rows := grid.rows, doc := doc.length }
      (available - 2) (!request.items.isEmpty)
  let header := header.take heights.header
  let doc := doc.take heights.doc
  let (items, selected, isTruncated) :=
    visibleItems (heights.rows * grid.cols) request.items request.selected
  let rows := if items.isEmpty then heights.rows else divideUp items.length grid.cols
  let boxWidth := min maxWidth (contentWidth header items.length grid doc + 2)
  let boxHeight := heights.header + rows + heights.doc + 2
  let top : Int := match anchor with
    | .below => (row : Int) + 1
    | .above => (row : Int) - boxHeight
  { top := clampTo ((height : Int) - boxHeight) top
    left := clampTo ((width : Int) - boxWidth) request.col
    height := boxHeight, width := boxWidth
    rows, cols := grid.cols, columnWidth := grid.columnWidth
    anchor, header, items, selected, doc, isTruncated }

/-- The popup for a valid place of the cursor on a screen that has room for it. -/
def Request.place (request : Request) (width height row : Nat) : Except LayoutError Layout :=
  let side := room height row
  if side.2 < 3 || fifths 4 width < 4 then .error .noRoom
  else .ok (request.box width height row side.1 side.2)

/-- The popup for a request. -/
def Request.layout (request : Request) : Except LayoutError Layout :=
  if request.width ≤ 0 || request.height ≤ 0 || request.row < 0 || request.height ≤ request.row then
    .error .invalidGeometry
  else request.place request.width.toNat request.height.toNat request.row.toNat

/-- The smallest box that still shows that there is something, or one of no height where not even
that fits. -/
def minimal (width height row col : Int) : Layout :=
  if width < 2 || height < 3 then { isDegraded := true }
  else
    let box : Layout := { width := 2, left := clampTo (width - 2) col, isDegraded := true }
    if 2 ≤ height - row - 1 then { box with anchor := .below, top := row + 1, height := 2 }
    else if 2 ≤ row then { box with anchor := .above, top := row - 2, height := 2 }
    else box

def blank (n : Nat) : Run := { style := .main, text := Bytes.spaces n }

/-- A line cut or filled up to `inner` cells. -/
def padTo (inner : Nat) (line : StyledLine) : StyledLine :=
  let line := if inner < StyledLine.width line then (StyledLine.wrap line inner).headD [] else line
  if StyledLine.width line < inner then line ++ [blank (inner - StyledLine.width line)] else line

/-- The cell of a candidate in the grid. -/
def itemRuns (columnWidth : Nat) (isSelected : Bool) (item : Bytes) : StyledLine :=
  let text := Utf8.truncate (columnWidth - 1) item
  [{ style := if isSelected then .selected else .main, text, bold := isSelected },
   blank (columnWidth - Utf8.width text)]

def Layout.gridRow (layout : Layout) (row : Nat) : StyledLine :=
  let first := row * layout.cols
  (((layout.items.drop first).take layout.cols).mapIdx fun i item =>
    itemRuns layout.columnWidth (layout.selected == some (first + i)) item).flatten

/-- The rows inside the border, each as wide as the box. -/
def Layout.innerRows (layout : Layout) : List StyledLine :=
  if layout.isDegraded || layout.innerWidth = 0 then []
  else
    (layout.header ++ (List.range layout.rows).map layout.gridRow ++
      layout.doc.map (StyledLine.ofText · .doc)).map (padTo layout.innerWidth)

end Popup
end CalcShell
