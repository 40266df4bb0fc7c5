import CalcShell.Text.Styled

/-!
Colour schemes: a terminal colour and a weight for each style. A colour is written as one letter,
in upper case for bold.
-/
namespace CalcShell

inductive Color where
  | black | red | green | yellow | blue | magenta | cyan | white | terminal
deriving DecidableEq, Repr

namespace Color

def all : List Color := [.black, .red, .green, .yellow, .blue, .magenta, .cyan, .white, .terminal]

def letter : Color → UInt8
  | .black => Ascii.code 'k'
  | .red => Ascii.code 'r'
  | .green => Ascii.code 'g'
  | .yellow => Ascii.code 'y'
  | .blue => Ascii.code 'b'
  | .magenta => Ascii.code 'm'
  | .cyan => Ascii.code 'c'
  | .white => Ascii.code 'w'
  | .terminal => Ascii.code 'd'

/-- The colour of a letter in either case. -/
def ofLetter? (b : UInt8) : Option Color := all.find? (·.letter == Ascii.toLower b)

/-- The number that selects the colour as a terminal's foreground. -/
def foreground : Color → Nat
  | .black => 30
  | .red => 31
  | .green => 32
  | .yellow => 33
  | .blue => 34
  | .magenta => 35
  | .cyan => 36
  | .white => 37
  | .terminal => 39

@[simp] theorem ofLetter?_letter (c : Color) : ofLetter? c.letter = some c := by
  cases c <;> decide

/-- The foreground for a letter; what is no colour letter leaves the terminal's own. -/
def foregroundOfLetter (b : UInt8) : Nat := ((ofLetter? b).getD .terminal).foreground

end Color

structure Ink where
  color : Color := .terminal
  bold : Bool := false
deriving DecidableEq, Repr

namespace Ink

def code (ink : Ink) : UInt8 :=
  if ink.bold then Ascii.toUpper ink.color.letter else ink.color.letter

def ofCode? : Bytes → Option Ink
  | [b] => (Color.ofLetter? b).map fun color => { color, bold := Ascii.isUpper b }
  | _ => none

@[simp] theorem ofCode?_code (ink : Ink) : ofCode? [ink.code] = some ink := by
  rcases ink with ⟨color, bold⟩
  cases color <;> cases bold <;> decide

end Ink

structure InvalidColor where
  style : Style
  code : Bytes
deriving DecidableEq, Repr

/-- A report that a NUL byte ends. -/
def InvalidColor.message (e : InvalidColor) : Bytes :=
  Bytes.untilNul
    (bytes "Invalid color '" ++ e.code ++ bytes "' for style '" ++ bytes e.style.label ++ bytes "'")

structure ColorScheme where
  inks : List (Style × Ink)

namespace ColorScheme

def empty : ColorScheme := ⟨[]⟩

def get (scheme : ColorScheme) (style : Style) : Ink := (scheme.inks.lookup style).getD {}

def put (scheme : ColorScheme) (style : Style) (ink : Ink) : ColorScheme :=
  ⟨(style, ink) :: scheme.inks.filter (·.1 != style)⟩

@[simp] theorem get_empty (style : Style) : empty.get style = {} := rfl

@[simp] theorem get_put_self (scheme : ColorScheme) (style : Style) (ink : Ink) :
    (scheme.put style ink).get style = ink := by simp [get, put]

def set (scheme : ColorScheme) (style : Style) (code : Bytes) : Except InvalidColor ColorScheme :=
  match Ink.ofCode? code with
  | some ink => .ok (scheme.put style ink)
  | none => .error ⟨style, code⟩

def defaults : ColorScheme :=
  ⟨[(.default, ⟨.terminal, false⟩), (.keyword, ⟨.yellow, false⟩), (.name, ⟨.cyan, false⟩),
    (.number, ⟨.green, true⟩), (.string, ⟨.magenta, false⟩), (.comment, ⟨.blue, false⟩),
    (.operator, ⟨.yellow, true⟩), (.punctuation, ⟨.yellow, false⟩), (.paren, ⟨.red, true⟩),
    (.token, ⟨.cyan, true⟩), (.prompt, ⟨.cyan, false⟩), (.promptMore, ⟨.green, false⟩),
    (.output, ⟨.white, false⟩), (.error, ⟨.red, false⟩), (.main, ⟨.cyan, false⟩),
    (.selected, ⟨.cyan, true⟩), (.doc, ⟨.white, false⟩), (.status, ⟨.white, false⟩)]⟩

end ColorScheme
end CalcShell
