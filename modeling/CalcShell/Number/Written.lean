import CalcShell.Bytes
import CalcShell.Number.Rounding

/-!
The text of a number: an integer below 10^16 has all its digits and no point, and every other
number has the fewest significant digits that read back as the same number.
-/
namespace CalcShell
namespace Number

/-- The most digits that a 64-bit number needs to read back. -/
def mostDigits : Nat := 17

/-- The first precision from `precision` on at which the rounded decimal reads back. -/
def shortestFrom (bits num den precision : Nat) : Nat → Nat × Decimal
  | 0 => (precision, Decimal.ofRatio num den precision)
  | more + 1 =>
    let d := Decimal.ofRatio num den precision
    let (n, m) := d.ratio precision
    if nearestBits n m = bits then (precision, d)
    else shortestFrom bits num den (precision + 1) more

def shortest (bits num den : Nat) : Nat × Decimal :=
  shortestFrom bits num den 1 (mostDigits - 1)

/-- An exponent has a sign and at least two digits. -/
def exponentText (exponent : Int) : Bytes :=
  let digits := Bytes.ofNat exponent.natAbs
  bytes "e" ++ bytes (if exponent < 0 then "-" else "+") ++
    (if digits.length < 2 then bytes "0" ++ digits else digits)

/-- Digits with a point behind the first `whole` of them, unless there are no more. -/
def pointed (digits : Bytes) (whole : Nat) : Bytes :=
  if digits.length ≤ whole then digits
  else digits.take whole ++ bytes "." ++ digits.drop whole

/-- Positional notation for exponents from -4 up to the precision, scientific notation else. -/
def layout (precision : Nat) (d : Decimal) : Bytes :=
  let digits := Bytes.ofNat d.digits
  if d.exponent < -4 || precision ≤ d.exponent then pointed digits 1 ++ exponentText d.exponent
  else
    match d.exponent with
    | .ofNat n => pointed digits (n + 1)
    | .negSucc n => bytes "0." ++ (List.replicate n (Ascii.code '0') ++ digits)

/-- Integers below this one have all their digits: 10 to the power of 16. -/
def positionalLimit : Nat := 10000000000000000

/-- The text of the finite magnitude with the given bits. -/
def magnitudeText (bits : Nat) : Bytes :=
  let x := Dyadic.ofBits bits
  let general : Bytes :=
    let (num, den) := x.ratio
    let (precision, d) := shortest bits num den
    layout precision d
  match x.toNat? with
  | some n => if n < positionalLimit then Bytes.ofNat n else general
  | none => general

/-- The text of a number; zero has no sign. -/
def text (x : Float) : Bytes :=
  let bits := x.toBits.toNat
  let magnitude := bits % signBit
  let sign := if magnitude < bits then bytes "-" else []
  if infinityBits < magnitude then bytes "nan"
  else if magnitude = infinityBits then sign ++ bytes "inf"
  else if magnitude = 0 then bytes "0"
  else sign ++ magnitudeText magnitude

end Number
end CalcShell
