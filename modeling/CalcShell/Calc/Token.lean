import CalcShell.Text.Styled

/-!
Tokens of the calculator language. The tokens of a line cover it exactly, white space included, so
that a highlighted line reads back as the text it was made from.
-/
namespace CalcShell
namespace Calc

inductive TokenKind where
  | whitespace | number | string | name | keyword | operator | punctuation | comment | error
deriving DecidableEq, Repr, Inhabited

structure Token where
  kind : TokenKind
  text : Bytes
  /-- Bytes of the line before the token. -/
  pos : Nat
deriving DecidableEq, Repr, Inhabited

namespace Token

def isBlank (b : UInt8) : Bool := b == Ascii.space || b == Ascii.tab

/-- Bytes of names; every byte beyond ASCII counts as a letter. -/
def startsName (b : UInt8) : Bool := Ascii.isLetter b || b == Ascii.code '_' || 0x80 ≤ b

def continuesName (b : UInt8) : Bool := startsName b || Ascii.isDigit b

def keywords : List Bytes :=
  ["False", "None", "True", "and", "import", "not", "or", "repeat"].map bytes

def isKeyword (word : Bytes) : Bool := keywords.contains word

def isPunctuation (b : UInt8) : Bool := (bytes "()[]\x7b\x7d,:.;").contains b

def isOperatorByte (b : UInt8) : Bool := (bytes "+-*/%<>=\\").contains b

def doubleOperators : List Bytes := ["**", "//", "==", "!=", "<=", ">="].map bytes

/-- Length of what follows an opening quote, up to and with the closing one, and whether there is a
closing one. A backslash hides the byte behind it. -/
def scanString (quote : UInt8) : Bytes → Nat × Bool
  | [] => (0, false)
  | b :: rest =>
    if b = quote then (1, true)
    else if b = Ascii.backslash then
      match rest with
      | [] => (1, false)
      | _ :: rest =>
        let (n, closed) := scanString quote rest
        (n + 2, closed)
    else
      let (n, closed) := scanString quote rest
      (n + 1, closed)

/-- Length of an exponent at the front of a text; a sign without digits begins none. -/
def exponentLength : Bytes → Nat
  | e :: rest =>
    if e = Ascii.code 'e' || e = Ascii.code 'E' then
      let sign := match rest.head? with
        | some s => if s = Ascii.code '+' || s = Ascii.code '-' then 1 else 0
        | none => 0
      match ((rest.drop sign).takeWhile Ascii.isDigit).length with
      | 0 => 0
      | digits => 1 + sign + digits
    else 0
  | [] => 0

def startsNumber (b : UInt8) (rest : Bytes) : Bool :=
  Ascii.isDigit b || (b == Ascii.code '.' && rest.head?.any Ascii.isDigit)

def isMantissa (b : UInt8) : Bool := Ascii.isDigit b || b == Ascii.code '.'

/-- The kind of the token at the front of `b :: rest` and the number of bytes it takes from
`rest`. -/
def scan (b : UInt8) (rest : Bytes) : TokenKind × Nat :=
  if isBlank b then (.whitespace, (rest.takeWhile isBlank).length)
  else if b = Ascii.code '#' then (.comment, rest.length)
  else if b = Ascii.doubleQuote || b = Ascii.singleQuote then (.string, (scanString b rest).1)
  else if startsNumber b rest then
    let mantissa := (rest.takeWhile isMantissa).length
    (.number, mantissa + exponentLength (rest.drop mantissa))
  else if startsName b then
    let tail := rest.takeWhile continuesName
    (if isKeyword (b :: tail) then .keyword else .name, tail.length)
  else if isPunctuation b then (.punctuation, 0)
  else if doubleOperators.contains (b :: rest.take 1) then (.operator, 1)
  else (if isOperatorByte b then .operator else .error, 0)

/-- The tokens of a text that stands `pos` bytes into its line. -/
def lexFrom (pos : Nat) : Bytes → List Token
  | [] => []
  | b :: rest =>
    let (kind, n) := scan b rest
    { kind, text := b :: rest.take n, pos } :: lexFrom (pos + 1 + n) (rest.drop n)
termination_by text => text.length
decreasing_by simp only [List.length_drop, List.length_cons]; omega

def lex (text : Bytes) : List Token := lexFrom 0 text

def isSignificant (token : Token) : Bool :=
  token.kind != .whitespace && token.kind != .comment

/-- The tokens that a statement consists of. -/
def significant (text : Bytes) : List Token := (lex text).filter isSignificant

def isOpening (token : Token) : Bool :=
  token.kind == .punctuation && ["(", "[", "\x7b"].any (bytes · == token.text)

def isClosing (token : Token) : Bool :=
  token.kind == .punctuation && [")", "]", "\x7d"].any (bytes · == token.text)

/-- Opening brackets less closing ones. -/
def bracketDepth (tokens : List Token) : Int :=
  tokens.countP isOpening - tokens.countP isClosing

def is (token : Token) (kind : TokenKind) (text : String) : Bool :=
  token.kind == kind && token.text == bytes text

end Token

namespace TokenKind

def label : TokenKind → String
  | .whitespace => "whitespace"
  | .number => "number"
  | .string => "string"
  | .name => "name"
  | .keyword => "keyword"
  | .operator => "operator"
  | .punctuation => "punctuation"
  | .comment => "comment"
  | .error => "error"

def style : TokenKind → Style
  | .number => .number
  | .string => .string
  | .name => .name
  | .keyword => .keyword
  | .operator => .operator
  | .punctuation => .punctuation
  | .comment => .comment
  | .error => .error
  | .whitespace => .default

end TokenKind

/-- A line with its tokens in their styles. -/
def highlight (text : Bytes) : StyledLine :=
  StyledLine.merge ((Token.lex text).map fun token => { style := token.kind.style, text := token.text })

end Calc
end CalcShell
