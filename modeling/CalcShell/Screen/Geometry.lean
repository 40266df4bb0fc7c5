/-!
The size of a screen in cells.
-/
namespace CalcShell

structure Geometry where
  rows : Int := 0
  cols : Int := 0
deriving DecidableEq, Repr, Inhabited

namespace Geometry

/-- Without rows or columns nothing can be shown. -/
def isDegenerate (g : Geometry) : Bool := g.rows ≤ 0 || g.cols ≤ 0

/-- Rows of the main pane: all but the status row, and at least one. -/
def paneRows (g : Geometry) : Nat := if 1 < g.rows then (g.rows - 1).toNat else 1

/-- The size of a screen that reports none. -/
def standard : Geometry := ⟨24, 80⟩

/-- Rows, columns and what is computed from them are 32-bit integers. -/
def wrapCount (n : Int) : Int := Int.bmod n 0x100000000

end Geometry
end CalcShell
