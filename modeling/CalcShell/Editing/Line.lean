import CalcShell.Text.Utf8

/-!
The line being edited: the bytes on both sides of the cursor and the buffer of the last cut.
Motions and deletions work on whole code points.
-/
namespace CalcShell

structure InputLine where
  before : Bytes := []
  after : Bytes := []
  cut : Bytes := []
  /-- Distance of tab stops; without a positive one there are none. -/
  tabLength : Int := 4
deriving DecidableEq, Repr, Inhabited

namespace InputLine

def text (line : InputLine) : Bytes := line.before ++ line.after

/-- Distance of the cursor from the end of the text. -/
def offset (line : InputLine) : Nat := line.after.length

def index (line : InputLine) : Nat := line.before.length

def isEmpty (line : InputLine) : Bool := line.before.isEmpty && line.after.isEmpty

def atEnd (line : InputLine) : Bool := line.after.isEmpty

def atBlank (line : InputLine) : Bool := line.text.isBlank

def insert (line : InputLine) (text : Bytes) : InputLine :=
  { line with before := line.before ++ text }

/-- Replaces the text and puts the cursor at its end. -/
def set (line : InputLine) (text : Bytes) : InputLine := { line with before := text, after := [] }

def clear (line : InputLine) : InputLine := line.set []

def home (line : InputLine) : InputLine := { line with before := [], after := line.text }

def toEnd (line : InputLine) : InputLine := { line with before := line.text, after := [] }

def cutToEnd (line : InputLine) : InputLine := { line with after := [], cut := line.after }

def yank (line : InputLine) : InputLine := line.insert line.cut

def clearToStart (line : InputLine) : InputLine := { line with before := [] }

@[simp] theorem text_insert (line : InputLine) (t : Bytes) :
    (line.insert t).text = line.before ++ t ++ line.after := rfl

@[simp] theorem text_set (line : InputLine) (t : Bytes) : (line.set t).text = t := by
  simp [set, text]

@[simp] theorem text_home (line : InputLine) : line.home.text = line.text := by simp [home, text]

@[simp] theorem text_toEnd (line : InputLine) : line.toEnd.text = line.text := by
  simp [toEnd, text]

/-- Length of the code point left of the cursor. -/
def backLength (line : InputLine) : Nat := Utf8.lastLength line.before.reverse

/-- Takes the last `n` bytes from the left side. -/
def dropBack (line : InputLine) (n : Nat) : InputLine :=
  { line with before := line.before.take (line.before.length - n) }

/-- Distance to the previous tab stop if a blank line with its cursor at the end has one. -/
def tabBack? (line : InputLine) : Option Nat :=
  let tab := line.tabLength.toNat
  if 0 < tab && line.atEnd && line.before.isBlank then
    some (if line.index % tab = 0 then tab else line.index % tab)
  else none

/-- Deletes the code point left of the cursor or, when asked for tabs on a blank line, the white
space back to the previous tab stop. Tells how many characters went. -/
def backspace (line : InputLine) (tabs : Bool) : Nat × InputLine :=
  if line.before.isEmpty then (0, line)
  else match if tabs then line.tabBack? else none with
    | some n => (n, line.dropBack n)
    | none => (1, line.dropBack line.backLength)

theorem backLength_pos {line : InputLine} (h : line.before ≠ []) : 0 < line.backLength := by
  have := List.length_pos_iff.2 h
  simp only [backLength, Utf8.lastLength, List.length_reverse]
  omega

theorem tabBack?_pos {line : InputLine} {n : Nat} (h : line.tabBack? = some n) : 0 < n := by
  simp only [tabBack?] at h
  split at h
  · rename_i positive
    simp only [Bool.and_eq_true, decide_eq_true_eq] at positive
    split at h <;> simp only [Option.some.injEq] at h <;> omega
  · cases h

theorem length_before_backspace_lt {line : InputLine} (tabs : Bool) (h : line.before ≠ []) :
    (line.backspace tabs).2.before.length < line.before.length := by
  have length := List.length_pos_iff.2 h
  have back := backLength_pos h
  simp only [backspace, List.isEmpty_iff, h, if_false]
  split
  · rename_i n found
    cases tabs
    · cases found
    · have := tabBack?_pos found
      simp only [dropBack, List.length_take]
      omega
  · simp only [dropBack, List.length_take]
    omega

/-- Deletes to the left as long as the byte there satisfies `p`. -/
def backspaceWhile (p : UInt8 → Bool) (line : InputLine) : InputLine :=
  if _more : line.before.getLast?.any p then backspaceWhile p (line.backspace true).2 else line
termination_by line.before.length
decreasing_by
  refine length_before_backspace_lt true fun empty => ?_
  simp [empty] at _more

/-- Deletes the spaces left of the cursor and then the word before them. -/
def backspaceWord (line : InputLine) : InputLine :=
  (line.backspaceWhile (· == Ascii.space)).backspaceWhile (· != Ascii.space)

/-- Moves the cursor `n` code points towards the start of the text. -/
def left? : Nat → InputLine → Option InputLine
  | 0, line => some line
  | n + 1, line =>
    if line.before.isEmpty then none
    else
      let keep := line.before.length - line.backLength
      left? n { line with
        before := line.before.take keep
        after := line.before.drop keep ++ line.after }

/-- Moves the cursor `n` code points towards the end of the text. -/
def right? : Nat → InputLine → Option InputLine
  | 0, line => some line
  | n + 1, line =>
    if line.after.isEmpty then none
    else
      let length := Utf8.nextLength line.after
      right? n { line with
        before := line.before ++ line.after.take length
        after := line.after.drop length }

/-- Positive distances lead towards the start. A motion that would leave the line is refused. -/
def move? (line : InputLine) (distance : Int) : Option InputLine :=
  if 0 < distance then left? distance.natAbs line else right? distance.natAbs line

def move (line : InputLine) (distance : Int) : InputLine := (line.move? distance).getD line

/-- Deletes the code point at the cursor, if there is one. -/
def deleteForward? (line : InputLine) : Option InputLine :=
  (line.move? (-1)).map fun moved => (moved.backspace false).2

def deleteForward (line : InputLine) : InputLine := line.deleteForward?.getD line

def isWordByte (b : UInt8) : Bool :=
  Ascii.isAlphanumeric b || b == Ascii.code '.' || b == Ascii.code '_'

/-- The identifier, possibly dotted, that ends at the cursor at the end of the line. -/
def currentWord? (line : InputLine) : Option Bytes :=
  let word := (line.before.reverse.takeWhile isWordByte).reverse
  if line.atEnd && !word.isEmpty then some word else none

end InputLine
end CalcShell
