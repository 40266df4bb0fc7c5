import CalcShell.Screen.Draw

/-!
A screen that only stores what it is told.
-/
namespace CalcShell

structure Record where
  /-- What was drawn last in each row, by ascending rows. -/
  rows : List (Int × StyledLine) := []
  lineCount : Nat := 0
  presentCount : Nat := 0
  /-- The place of the cursor, once it was put somewhere. -/
  cursor : Option (Int × Int) := none
  popup : Option Popup.Layout := none
  popupCount : Nat := 0
  hideCount : Nat := 0
  status : Option StyledLine := none
  statusCount : Nat := 0
  suspensions : List Bool := []
deriving DecidableEq, Repr, Inhabited

namespace Record

def setRow (row : Int) (line : StyledLine) : List (Int × StyledLine) → List (Int × StyledLine)
  | [] => [(row, line)]
  | (r, shown) :: rest =>
    if row < r then (row, line) :: (r, shown) :: rest
    else if row = r then (row, line) :: rest
    else (r, shown) :: setRow row line rest

def draw (record : Record) : Draw → Record
  | .line row line =>
    { record with rows := setRow row line record.rows, lineCount := record.lineCount + 1 }
  | .status line => { record with status := some line, statusCount := record.statusCount + 1 }
  | .popup layout => { record with popup := some layout, popupCount := record.popupCount + 1 }
  | .hidePopup => { record with popup := none, hideCount := record.hideCount + 1 }
  | .cursor row col => { record with cursor := some (row, col) }
  | .present => { record with presentCount := record.presentCount + 1 }
  | .suspend isOn => { record with suspensions := record.suspensions ++ [isOn] }
  | .measured _ => record

/-- What a screen stores of commands, of which the cursor alone was known before. -/
def ofDraws (cursor : Option (Int × Int)) (commands : List Draw) : Record :=
  commands.foldl draw { cursor }

end Record
end CalcShell
