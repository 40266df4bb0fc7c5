import CalcShell.Calc.Token

/-!
What stands at the end of a text that is being typed: an open string, an open call, or an import
line.
-/
namespace CalcShell
namespace Completion

open Calc (Token)

/-- The content of a string literal that is still open at the end of a text, if it has any. -/
def openString? : Bytes → Option Bytes
  | [] => none
  | b :: rest =>
    if b = Ascii.code '#' then none
    else if b = Ascii.doubleQuote || b = Ascii.singleQuote then
      match Token.scanString b rest with
      | (n, true) => openString? (rest.drop n)
      | (_, false) => if rest.isEmpty then none else some rest
    else openString? rest
termination_by text => text.length
decreasing_by all_goals simp; try omega

/-- A bracket that is open, with the commas seen inside it. -/
structure OpenBracket where
  isRound : Bool
  /-- Place of the bracket. -/
  pos : Nat
  commas : Nat := 0
  /-- Place of the current argument. -/
  argument : Nat
deriving DecidableEq, Repr

def countComma (next : Nat) : List OpenBracket → List OpenBracket
  | [] => []
  | bracket :: rest =>
    { bracket with commas := bracket.commas + 1, argument := next } :: rest

/-- The brackets open at the end of a text that begins at place `i`, the innermost one first, when
those in `stack` are open before it. String literals are passed over. -/
def openBrackets (i : Nat) (stack : List OpenBracket) : Bytes → List OpenBracket
  | [] => stack
  | b :: rest =>
    if b = Ascii.doubleQuote || b = Ascii.singleQuote then
      let n := (Token.scanString b rest).1
      openBrackets (i + 1 + n) stack (rest.drop (Token.scanString b rest).1)
    else if (bytes "([\x7b").contains b then
      openBrackets (i + 1)
        ({ isRound := b == Ascii.code '(', pos := i, argument := i + 1 } :: stack) rest
    else if (bytes ")]\x7d").contains b then openBrackets (i + 1) stack.tail rest
    else if b = Ascii.code ',' then openBrackets (i + 1) (countComma (i + 1) stack) rest
    else openBrackets (i + 1) stack rest
termination_by text => text.length
decreasing_by all_goals simp; try omega

/-- The innermost call that is open at the end of a text. -/
structure CallContext where
  callee : Bytes
  argIndex : Nat
  /-- Name of the keyword argument that is being typed, or nothing. -/
  keyword : Bytes := []
deriving DecidableEq, Repr

def isNameByte (b : UInt8) : Bool :=
  Ascii.isAlphanumeric b || b == Ascii.code '_' || b == Ascii.code '.'

def isWordByte (b : UInt8) : Bool := Ascii.isAlphanumeric b || b == Ascii.code '_'

/-- The dotted name right before a bracket, spaces between allowed. -/
def calleeBefore? (left : Bytes) : Option Bytes :=
  let name := ((left.reverse.dropWhile (· == Ascii.space)).takeWhile isNameByte).reverse
  match name with
  | [] => none
  | b :: _ => if Ascii.isDigit b || b == Ascii.code '.' then none else some name

/-- The name in front of a single equals sign at the start of an argument. -/
def keywordOf (argument : Bytes) : Bytes :=
  let start := argument.dropWhile Ascii.isSpace
  let name := start.takeWhile isWordByte
  match (start.drop name.length).dropWhile Ascii.isSpace with
  | sign :: rest =>
    if sign = Ascii.code '=' && rest.head? != some (Ascii.code '=') &&
        name.head?.any (!Ascii.isDigit ·) then name
    else []
  | [] => []

def callContext? (text : Bytes) : Option CallContext := do
  let stack := openBrackets 0 [] text
  let bracket ← stack.find? (·.isRound)
  let callee ← calleeBefore? (text.take bracket.pos)
  let isInnermost := stack.head?.any (·.pos == bracket.pos)
  some
    { callee
      argIndex := bracket.commas
      keyword := if isInnermost then keywordOf (text.drop bracket.argument) else [] }

/-- What an import line asks for at its end. -/
inductive ImportLine where
  | module (word : Bytes)
  | member (package word : Bytes)
deriving DecidableEq, Repr

/-- The rest of a text behind a word and the white space after it. -/
def behindWord? (word : String) (text : Bytes) : Option Bytes :=
  let rest := text.drop (bytes word).length
  if (bytes word).isPrefixOf text && rest.head?.any Ascii.isSpace then
    some (rest.dropWhile Ascii.isSpace)
  else none

/-- One name with white space around it. -/
def isListed (p : UInt8 → Bool) (piece : Bytes) : Bool :=
  let name := (piece.dropWhile Ascii.isSpace).takeWhile p
  !name.isEmpty && Bytes.isBlank ((piece.dropWhile Ascii.isSpace).drop name.length)

/-- The name at the end of a comma-separated list, possibly empty, with nothing behind it. -/
def lastListed? (p : UInt8 → Bool) (text : Bytes) : Option Bytes :=
  let pieces := text.splitOn (Ascii.code ',')
  let last := (pieces.getLast?.getD []).dropWhile Ascii.isSpace
  if pieces.dropLast.all (isListed p) && last.all p then some last else none

def importLine? (text : Bytes) : Option ImportLine :=
  let text := text.dropWhile Ascii.isSpace
  match behindWord? "import" text with
  | some names => (lastListed? isNameByte names).map .module
  | none =>
    match behindWord? "from" text with
    | none => none
    | some rest =>
      let package := rest.takeWhile isNameByte
      let behind := rest.drop package.length
      if behind.isEmpty then some (.module package)
      else if package.isEmpty || !behind.head?.any Ascii.isSpace then none
      else
        match behindWord? "import" (behind.dropWhile Ascii.isSpace) with
        | some names => (lastListed? isWordByte names).map (.member package)
        | none => none

end Completion
end CalcShell
