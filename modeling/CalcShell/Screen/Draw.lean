import CalcShell.Popup.Layout
import CalcShell.Screen.Geometry

/-!
What the shell asks of a screen, as a list of commands. A screen keeps what it was told until it is
told otherwise.
-/
namespace CalcShell

inductive Draw where
  | line (row : Int) (content : StyledLine)
  | status (content : StyledLine)
  | popup (layout : Popup.Layout)
  | hidePopup
  | cursor (row col : Int)
  | present
  /-- Hand the terminal over for an evaluation, or take it back. -/
  | suspend (isOn : Bool)
  /-- The screen was asked for its size and has this one. -/
  | measured (size : Geometry)
deriving DecidableEq, Repr

end CalcShell
