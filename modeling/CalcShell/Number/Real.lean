/-!
Rounding of floating-point numbers to integers, and counts taken from them.
-/
namespace CalcShell
namespace Number

/-- The nearest integer, a half to the even one, with the sign of the argument. -/
def roundHalfEven (x : Float) : Float :=
  if !(x.abs < 4503599627370496.0) then x
  else
    let below := x.floor
    let distance := x - below
    let isEven := (below / 2.0).floor * 2.0 == below
    let rounded :=
      if distance < 0.5 || (distance == 0.5 && isEven) then below else below + 1.0
    if rounded == 0.0 && x < 0.0 then -0.0 else rounded

/-- Without the fraction. -/
def truncate (x : Float) : Float := if x < 0.0 then x.ceil else x.floor

def isInteger (x : Float) : Bool := x == x.floor

/-- How often an action with the given count happens: the count rounded down, none for a negative
one and for NaN. Counting in floating point cannot go beyond 2^53. -/
def repetitions (x : Float) : Nat :=
  if 9007199254740992.0 ≤ x then 9007199254740992 else x.floor.toUInt64.toNat

/-- Times are 64-bit integers. -/
def wrapTime (t : Int) : Int := Int.bmod t 0x10000000000000000

/-- A duration in whole nanoseconds, cut off towards zero. One that 64 bits cannot hold becomes the
smallest 64-bit integer. -/
def nanoseconds (seconds : Float) : Int :=
  let ns := seconds * 1000000000.0
  if ns.abs < 9223372036854775808.0 then
    if ns < 0.0 then -(ns.abs.toUInt64.toNat : Int) else ns.toUInt64.toNat
  else -9223372036854775808

end Number
end CalcShell
