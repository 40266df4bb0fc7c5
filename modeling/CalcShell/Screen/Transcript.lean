import CalcShell.Text.Styled

/-!
The transcript: the newest lines of everything entered and written so far. Each line has a number
that it keeps when older lines are dropped.
-/
namespace CalcShell

structure TranscriptLine where
  styled : StyledLine
  /-- The text of an input line, without its prompt. -/
  source : Option Bytes := none
  promptWidth : Nat := 0
deriving DecidableEq, Repr, Inhabited

structure Transcript where
  /-- The number of the oldest line that is kept. -/
  first : Nat := 0
  lines : Array TranscriptLine := #[]
deriving Repr, Inhabited

namespace Transcript

/-- The most lines kept. -/
def limit : Nat := 5000

/-- The number that the next line gets. -/
def mark (t : Transcript) : Nat := t.first + t.lines.size

def line? (t : Transcript) (number : Nat) : Option TranscriptLine :=
  if number < t.first then none else t.lines[number - t.first]?

/-- Adds a line; the oldest one goes when there are too many. -/
def push (t : Transcript) (line : TranscriptLine) : Transcript :=
  let lines := t.lines.push line
  if lines.size ≤ limit then { t with lines }
  else
    { first := t.first + (lines.size - limit)
      lines := lines.extract (lines.size - limit) lines.size }

def pushAll (t : Transcript) (lines : List TranscriptLine) : Transcript := lines.foldl push t

/-- Drops all lines. -/
def clear (t : Transcript) : Transcript := { first := t.mark, lines := #[] }

/-- Drops the lines with the number `mark` and above. -/
def rewind (t : Transcript) (mark : Nat) : Transcript :=
  { t with lines := t.lines.extract 0 (mark - t.first) }

@[simp] theorem mark_clear (t : Transcript) : t.clear.mark = t.mark := by simp [clear, mark]

/-- The lines of output that a text makes; carriage returns do not count. -/
def outputLines (text : Bytes) (isError : Bool) : List TranscriptLine :=
  text.lines.map fun row =>
    { styled := StyledLine.ofText (row.filter (· != Ascii.carriageReturn))
        (if isError then .error else .output) }

/-- The last `room` screen rows of the lines below number `below`, after `style` has been applied to
them; rows already laid out stand behind these. -/
def lastRows (t : Transcript) (cols room : Nat) (style : Nat → StyledLine → StyledLine) :
    Nat → List StyledLine → List StyledLine
  | 0, rows => rows.drop (rows.length - room)
  | n + 1, rows =>
    if room ≤ rows.length then rows.drop (rows.length - room)
    else
      match t.lines[n]? with
      | some line =>
        t.lastRows cols room style n ((style (t.first + n) line.styled).wrap cols ++ rows)
      | none => t.lastRows cols room style n rows

end Transcript
end CalcShell
