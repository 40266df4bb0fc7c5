import CalcShell.Number.Real

/-!
Coalescing of redraws. The first output after a quiet time is drawn at once and arms a timer; what
follows waits for the timer, unless that has been starved for more than two intervals.
-/
namespace CalcShell

/-- Times are in nanoseconds. -/
structure Throttle where
  /-- In milliseconds. -/
  interval : Int := 50
  isArmed : Bool := false
  /-- Output waits to be drawn. -/
  isPending : Bool := false
  armedAt : Int := 0
  lastDraw : Int := 0
deriving DecidableEq, Repr, Inhabited

namespace Throttle

def ofMilliseconds (n : Int) : Int := Number.wrapTime (n * 1000000)

/-- Output arrives; tells whether it is to be drawn now. -/
def output (t : Throttle) (now : Int) : Bool × Throttle :=
  if !t.isArmed then
    (true, { t with isArmed := true, armedAt := now, lastDraw := now, isPending := false })
  else if ofMilliseconds (Number.wrapTime (2 * t.interval)) < now - t.lastDraw then
    (true, { t with lastDraw := now, isPending := false })
  else (false, { t with isPending := true })

/-- The timer ticks; tells whether output that waited is to be drawn now. -/
def tick (t : Throttle) (now : Int) : Bool × Throttle :=
  if !t.isArmed || now - t.armedAt < ofMilliseconds t.interval then (false, t)
  else if t.isPending then
    (true, { t with isArmed := false, isPending := false, lastDraw := now })
  else (false, { t with isArmed := false })

end Throttle
end CalcShell
