/-!
Exact rounding between ratios of natural numbers and 64-bit binary floating point. A half goes to
the even neighbour.
-/
namespace CalcShell
namespace Number

/-- The natural number nearest to `num / den`. -/
def roundDiv (num den : Nat) : Nat :=
  let q := num / den
  let twice := 2 * (num % den)
  if twice < den then q
  else if den < twice then q + 1
  else if q % 2 = 0 then q else q + 1

/-- The lowest bit of the exponent field, 2 to the power of 52. -/
def exponentBit : Nat := 0x10000000000000

/-- The bit of the sign, 2 to the power of 63. -/
def signBit : Nat := 0x8000000000000000

/-- A finite magnitude: `significand` times two to the power of `exponent`. -/
structure Dyadic where
  significand : Nat
  exponent : Int
deriving DecidableEq, Repr

namespace Dyadic

def smallestExponent : Int := -1074

/-- The magnitude that the low 63 bits of a finite number encode. -/
def ofBits (bits : Nat) : Dyadic :=
  let field : Nat := bits / exponentBit % 0x800
  let fraction := bits % exponentBit
  if field = 0 then ⟨fraction, smallestExponent⟩
  else ⟨exponentBit + fraction, (field : Int) + (smallestExponent - 1)⟩

/-- Numerator and denominator. -/
def ratio (x : Dyadic) : Nat × Nat :=
  match x.exponent with
  | .ofNat n => (x.significand * Nat.pow 2 n, 1)
  | .negSucc n => (x.significand, Nat.pow 2 (n + 1))

/-- The value as a natural number, if it is one. -/
def toNat? (x : Dyadic) : Option Nat :=
  let (num, den) := x.ratio
  if num % den = 0 then some (num / den) else none

end Dyadic

def infinityBits : Nat := 0x7FF * exponentBit

/-- `num / den` divided by two to the power of `shift`, rounded. -/
def scaledDiv (num den : Nat) (shift : Int) : Nat :=
  match shift with
  | .ofNat n => roundDiv num (den * Nat.pow 2 n)
  | .negSucc n => roundDiv (num * Nat.pow 2 (n + 1)) den

/-- The bits of the magnitude nearest to `num / den`. The significand takes 53 bits unless the
exponent is the smallest one; a carry out of it moves into the exponent by itself. -/
def nearestBits (num den : Nat) : Nat :=
  if num = 0 then 0
  else
    let estimate : Int := (num.log2 : Int) - den.log2 - 52
    let isShort : Bool :=
      match estimate with
      | .ofNat n => num < den * Nat.pow 2 n * exponentBit
      | .negSucc n => num * Nat.pow 2 (n + 1) < den * exponentBit
    let exponent := max Dyadic.smallestExponent (if isShort then estimate - 1 else estimate)
    let field := (exponent - Dyadic.smallestExponent).toNat
    min infinityBits (field * exponentBit + scaledDiv num den exponent)

/-- Number of decimal digits. -/
def digitCount (n : Nat) : Nat := (Nat.toDigits 10 n).length

/-- A decimal significand together with the power of ten of its first digit. -/
structure Decimal where
  digits : Nat
  exponent : Int
deriving DecidableEq, Repr

/-- `num / den` to `precision` significant digits. -/
def Decimal.ofRatio (num den precision : Nat) : Decimal :=
  let estimate : Int := (digitCount num : Int) - digitCount den
  let isReached : Bool :=
    match estimate with
    | .ofNat n => den * Nat.pow 10 n ≤ num
    | .negSucc n => den ≤ num * Nat.pow 10 (n + 1)
  let exponent := if isReached then estimate else estimate - 1
  let digits :=
    match (precision : Int) - 1 - exponent with
    | .ofNat n => roundDiv (num * Nat.pow 10 n) den
    | .negSucc n => roundDiv num (den * Nat.pow 10 (n + 1))
  if digits = Nat.pow 10 precision then ⟨Nat.pow 10 (precision - 1), exponent + 1⟩ else ⟨digits, exponent⟩

/-- The ratio that `precision` digits with a given exponent stand for. -/
def Decimal.ratio (d : Decimal) (precision : Nat) : Nat × Nat :=
  match d.exponent - ((precision : Int) - 1) with
  | .ofNat n => (d.digits * Nat.pow 10 n, 1)
  | .negSucc n => (d.digits, Nat.pow 10 (n + 1))

end Number
end CalcShell
