import CalcShell.Text.Utf8

/-!
Styled text: runs of bytes that carry a logical colour role, and its layout into screen rows.
Wrapping only ever inserts row breaks between code points.
-/
namespace CalcShell

/-- The colour roles that a colour scheme maps to concrete colours. -/
inductive Style where
  | default | keyword | name | number | string | comment | operator | punctuation | paren | token
  | prompt | promptMore | output | error | main | selected | doc | status
deriving DecidableEq, Repr, Inhabited

namespace Style

def all : List Style :=
  [.default, .keyword, .name, .number, .string, .comment, .operator, .punctuation, .paren, .token,
   .prompt, .promptMore, .output, .error, .main, .selected, .doc, .status]

def label : Style → String
  | .default => "default"
  | .keyword => "keyword"
  | .name => "name"
  | .number => "number"
  | .string => "string"
  | .comment => "comment"
  | .operator => "operator"
  | .punctuation => "punctuation"
  | .paren => "paren"
  | .token => "token"
  | .prompt => "prompt"
  | .promptMore => "prompt_more"
  | .output => "output"
  | .error => "error"
  | .main => "main"
  | .selected => "selected"
  | .doc => "doc"
  | .status => "status"

def ofLabel? (text : Bytes) : Option Style := all.find? (bytes ·.label == text)

theorem mem_all (s : Style) : s ∈ all := by cases s <;> decide

end Style

structure Run where
  style : Style
  text : Bytes
  bold : Bool := false
deriving DecidableEq, Repr, Inhabited

namespace Run

def sameFormat (a b : Run) : Bool := a.style == b.style && a.bold == b.bold

/-- The run one code point at a time. -/
def cells (run : Run) : List Run := (Utf8.chunks run.text).map ({ run with text := · })

end Run

abbrev StyledLine := List Run

namespace StyledLine

def plain (line : StyledLine) : Bytes := line.flatMap (·.text)

@[simp] theorem plain_nil : plain [] = [] := rfl

@[simp] theorem plain_cons (run : Run) (line : StyledLine) :
    plain (run :: line) = run.text ++ plain line := rfl

@[simp] theorem plain_append (a b : StyledLine) : plain (a ++ b) = plain a ++ plain b := by
  simp [plain]

def width (line : StyledLine) : Nat := Utf8.width line.plain

@[simp] theorem width_nil : width [] = 0 := rfl

@[simp] theorem width_cons (run : Run) (line : StyledLine) :
    width (run :: line) = Utf8.width run.text + width line := by simp [width]

/-- One run of the given style, or nothing for the empty text. -/
def ofText (text : Bytes) (style : Style := .default) : StyledLine :=
  if text.isEmpty then [] else [{ style, text }]

@[simp] theorem plain_ofText (text : Bytes) (style : Style) : plain (ofText text style) = text := by
  cases text <;> simp [ofText]

/-- The line one code point at a time. -/
def cells (line : StyledLine) : List Run := line.flatMap Run.cells

/-- Joins neighbouring runs of one format and drops empty ones. -/
def merge : List Run → StyledLine
  | [] => []
  | run :: rest =>
    if run.text.isEmpty then merge rest
    else match merge rest with
      | next :: more =>
        if run.sameFormat next then { run with text := run.text ++ next.text } :: more
        else run :: next :: more
      | [] => [run]

/-- Rows of `k + 1` cells, the last one possibly shorter. -/
def fullRows (k : Nat) : List Run → List (List Run)
  | [] => []
  | cell :: rest => (cell :: rest.take k) :: fullRows k (rest.drop k)
termination_by cells => cells.length
decreasing_by simp only [List.length_drop, List.length_cons]; omega

/-- The first row has room for `first` cells and every other one for `k + 1`. -/
def layRows (k first : Nat) (cells : List Run) : List (List Run) :=
  cells.take first :: fullRows k (cells.drop first)

/-- Screen rows of `width` cells; the first one starts at column `start`. There is always at least
one row, and without any width the line stays as it is. -/
def wrap (line : StyledLine) (width : Nat) (start : Nat := 0) : List StyledLine :=
  match width with
  | 0 => [line]
  | k + 1 => (layRows k (k + 1 - start) line.cells).map merge

/-- Adds a run to the end of a line, into the last run if the formats agree. -/
def snoc (line : StyledLine) (run : Run) : StyledLine :=
  if run.text.isEmpty then line
  else match line.getLast? with
    | some last =>
      if last.sameFormat run then line.dropLast ++ [{ last with text := last.text ++ run.text }]
      else line ++ [run]
    | none => [run]

/-- The runs before the one that holds byte `column`, that run, the byte's place in it, and the runs
after it. -/
def locate? : StyledLine → Nat → Option (StyledLine × Run × Nat × StyledLine)
  | [], _ => none
  | run :: rest, column =>
    if column < run.text.length then some ([], run, column, rest)
    else (locate? rest (column - run.text.length)).map fun (front, found) => (run :: front, found)

/-- Gives the single byte at `column`, a bracket, the given style in bold. -/
def highlight (line : StyledLine) (column : Nat) (style : Style) : StyledLine :=
  match line.locate? column with
  | none => line
  | some (front, run, place, back) =>
    let marked : Run := { style, text := (run.text.drop place).take 1, bold := true }
    (snoc (snoc front { run with text := run.text.take place } ++ [marked])
      { run with text := run.text.drop (place + 1) }) ++ back

end StyledLine
end CalcShell
