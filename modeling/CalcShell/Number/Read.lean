import CalcShell.Bytes
import CalcShell.Number.Rounding

/-!
Numbers from text: decimal and hexadecimal numerals with an exponent, infinities and NaN, in
either case and with a sign. The whole text has to be a numeral.
-/
namespace CalcShell
namespace Number

def digitValue (b : UInt8) : Nat :=
  if Ascii.isDigit b then b.toNat - 0x30 else (Ascii.toLower b).toNat - 0x57

def isHexDigit (b : UInt8) : Bool :=
  Ascii.isDigit b || (0x61 ≤ Ascii.toLower b && Ascii.toLower b ≤ 0x66)

def natOfDigits (base : Nat) (digits : Bytes) : Nat :=
  digits.foldl (fun n b => n * base + digitValue b) 0

/-- A sign at the front, as whether it is a minus, and the rest. -/
def splitSign : Bytes → Bool × Bytes
  | 0x2D :: rest => (true, rest)
  | 0x2B :: rest => (false, rest)
  | text => (false, text)

/-- The digits before and after the point, if there are any, and the rest. -/
def splitMantissa? (isDigit : UInt8 → Bool) (text : Bytes) : Option (Bytes × Bytes × Bytes) :=
  let whole := text.takeWhile isDigit
  let rest := text.drop whole.length
  let (fraction, rest) :=
    match rest with
    | 0x2E :: behind =>
      let fraction := behind.takeWhile isDigit
      (fraction, behind.drop fraction.length)
    | _ => ([], rest)
  if whole.isEmpty && fraction.isEmpty then none else some (whole, fraction, rest)

/-- The exponent behind a mantissa: nothing, or the mark with an optional sign and digits. -/
def exponent? (mark : Char) : Bytes → Option Int
  | [] => some 0
  | b :: rest =>
    let (negative, digits) := splitSign rest
    if Ascii.toLower b == Ascii.code mark && !digits.isEmpty && digits.all Ascii.isDigit then
      let n : Int := natOfDigits 10 digits
      some (if negative then -n else n)
    else none

/-- `digits` times a power of `base`, where a magnitude beyond every finite number is infinite and one below
every positive number is zero; so the power stays small before it is computed. -/
def scaledBits (base digits : Nat) (length power : Int) : Nat :=
  if digits = 0 then 0
  else if 1100 < length + power then infinityBits
  else if length + power < -1100 then 0
  else
    match power with
    | .ofNat n => nearestBits (digits * Nat.pow base n) 1
    | .negSucc n => nearestBits digits (Nat.pow base (n + 1))

def decimalBits? (text : Bytes) : Option Nat := do
  let (whole, fraction, rest) ← splitMantissa? Ascii.isDigit text
  let exponent ← exponent? 'e' rest
  let digits := natOfDigits 10 (whole ++ fraction)
  some (scaledBits 10 digits (digitCount digits) (exponent - fraction.length))

def hexBits? : Bytes → Option Nat
  | 0x30 :: x :: text => do
    guard (Ascii.toLower x == Ascii.code 'x')
    let (whole, fraction, rest) ← splitMantissa? isHexDigit text
    let exponent ← exponent? 'p' rest
    let digits := natOfDigits 16 (whole ++ fraction)
    some (scaledBits 2 digits (digits.log2 + 1) (exponent - 4 * fraction.length))
  | _ => none

def nanBits : Nat := infinityBits + exponentBit / 2

/-- What may stand in parentheses behind NaN. -/
def isNanPayload (text : Bytes) : Bool :=
  text.head? == some (Ascii.code '(') && text.getLast? == some (Ascii.code ')') &&
    (text.drop 1).dropLast.all fun b => Ascii.isAlphanumeric b || b == Ascii.code '_'

def wordBits? (text : Bytes) : Option Nat :=
  let lower := text.map Ascii.toLower
  if lower == bytes "inf" || lower == bytes "infinity" then some infinityBits
  else if lower.take 3 == bytes "nan" &&
      ((text.drop 3).isEmpty || (2 ≤ (text.drop 3).length && isNanPayload (text.drop 3))) then
    some nanBits
  else none

/-- Blanks around a numeral that are ignored. -/
def isBlank (b : UInt8) : Bool :=
  b == Ascii.space || b == Ascii.tab || b == Ascii.carriageReturn

def ofBits (negative : Bool) (magnitude : Nat) : Float :=
  Float.ofBits (UInt64.ofNat (if negative then magnitude + signBit else magnitude))

/-- The number that a text writes. All white space before it and blanks behind it are ignored. -/
def read? (text : Bytes) : Option Float :=
  let (negative, numeral) := splitSign ((Bytes.trim isBlank text).dropWhile Ascii.isSpace)
  (wordBits? numeral <|> hexBits? numeral <|> decimalBits? numeral).map (ofBits negative)

end Number
end CalcShell
