/-!
Text as bytes. The shell edits, stores and shows whatever arrives, valid UTF-8 or not, so every
text is a list of bytes; the classes below are those of ASCII and know no other letters.
-/
namespace CalcShell

abbrev Bytes := List UInt8

/-- The UTF-8 bytes of a text that the program itself writes. -/
def bytes (s : String) : Bytes :=
  s.toList.flatMap String.utf8EncodeChar

namespace Ascii

abbrev code (c : Char) : UInt8 := c.toUInt8

def tab : UInt8 := 0x09
def newline : UInt8 := 0x0A
def carriageReturn : UInt8 := 0x0D
def escape : UInt8 := 0x1B
def space : UInt8 := 0x20
def doubleQuote : UInt8 := 0x22
def singleQuote : UInt8 := 0x27
def backslash : UInt8 := 0x5C
def delete : UInt8 := 0x7F

def isDigit (b : UInt8) : Bool := 0x30 ≤ b && b ≤ 0x39

def isUpper (b : UInt8) : Bool := 0x41 ≤ b && b ≤ 0x5A

def isLower (b : UInt8) : Bool := 0x61 ≤ b && b ≤ 0x7A

def isLetter (b : UInt8) : Bool := isUpper b || isLower b

def isAlphanumeric (b : UInt8) : Bool := isLetter b || isDigit b

/-- Space, tab, newline, vertical tab, form feed and carriage return. -/
def isSpace (b : UInt8) : Bool := b == 0x20 || (0x09 ≤ b && b ≤ 0x0D)

def toLower (b : UInt8) : UInt8 := if isUpper b then b + 0x20 else b

def toUpper (b : UInt8) : UInt8 := if isLower b then b - 0x20 else b

end Ascii

namespace Bytes

/-- Nothing but white space; the empty text is blank. -/
def isBlank (text : Bytes) : Bool := text.all Ascii.isSpace

@[simp] theorem isBlank_nil : isBlank [] = true := rfl

@[simp] theorem isBlank_cons (b : UInt8) (text : Bytes) :
    isBlank (b :: text) = (Ascii.isSpace b && isBlank text) := rfl

theorem isBlank_append (front back : Bytes) :
    isBlank (front ++ back) = (isBlank front && isBlank back) := List.all_append

def spaces (n : Nat) : Bytes := List.replicate n Ascii.space

@[simp] theorem length_spaces (n : Nat) : (spaces n).length = n := by simp [spaces]

def ofNat (n : Nat) : Bytes := bytes (toString n)

def ofInt (n : Int) : Bytes := bytes (toString n)

/-- What is left of a text that is handed over as one that a NUL byte ends. -/
def untilNul (text : Bytes) : Bytes := text.takeWhile (· != 0)

@[simp] theorem untilNul_nil : untilNul [] = [] := rfl

/-- Without the bytes at both ends that satisfy `p`. -/
def trim (p : UInt8 → Bool) (text : Bytes) : Bytes :=
  ((text.dropWhile p).reverse.dropWhile p).reverse

/-- The pieces between the bytes equal to `sep`, one more than there are such bytes. -/
def splitOn (sep : UInt8) : Bytes → List Bytes
  | [] => [[]]
  | b :: rest =>
    if b = sep then [] :: splitOn sep rest
    else match splitOn sep rest with
      | [] => [[b]]
      | piece :: pieces => (b :: piece) :: pieces

/-- The lines of a text: each newline ends one, and what follows the last newline is a line of its
own unless it is empty. -/
def lines (text : Bytes) : List Bytes :=
  match (splitOn Ascii.newline text).reverse with
  | [] :: rest => rest.reverse
  | pieces => pieces.reverse

/-- Each line followed by a newline. -/
def unlines (ls : List Bytes) : Bytes :=
  ls.flatMap (· ++ [Ascii.newline])

/-- The part before the first byte equal to `sep` and the part after it. -/
def cutFirst? (sep : UInt8) (text : Bytes) : Option (Bytes × Bytes) :=
  match text.span (· != sep) with
  | (_, []) => none
  | (left, _ :: right) => some (left, right)

/-- The part before the last byte equal to `sep` and the part after it. -/
def cutLast? (sep : UInt8) (text : Bytes) : Option (Bytes × Bytes) :=
  (cutFirst? sep text.reverse).map fun (right, left) => (left.reverse, right.reverse)

end Bytes

end CalcShell
