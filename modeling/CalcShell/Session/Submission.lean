import CalcShell.Session.Basic

/-!
Evaluating lines and taking them back. A line that was interrupted is edited again as if it had never
been submitted; an evaluated line is taken back by evaluating all lines before it anew.
-/
namespace CalcShell
namespace Session

variable {ε : Type}

/-- Moves the line being edited into transcript, history and statement. -/
def commit (s : Session ε) : Session ε :=
  let text := s.line.text
  let s := s.closePopup
  { s with
    renderer := s.renderer.commitInput text s.isContinuation
    history := s.history.append text
    buffer := s.buffer ++ [text]
    turn := .submitted }.draw

/-- What the evaluator has written and nobody has seen yet. -/
def unseen (streams : Bool) (sub : Submission ε) : List Piece :=
  match sub.outcome with
  | .failed message =>
    [{ text := bytes "Error: " ++ message.untilNul ++ [Ascii.newline], isError := true }]
  | _ =>
    if streams then []
    else
      [{ text := Piece.joined false sub.pieces },
        { text := Piece.joined true sub.pieces, isError := true }].filter (!·.text.isEmpty)

/-- Takes over what an evaluation left, and shows what it wrote. -/
def follow (s : Session ε) (sub : Submission ε) : Session ε :=
  let s := { s with
    evaluator := sub.next
    surroundings := { s.surroundings with patience := sub.patience.clear } }
  if s.streams then sub.pieces.foldl stream s else s

/-- The line was taken; the next turn goes on with its statement or begins a new one. -/
def accept (s : Session ε) (line : Evaluated) (sub : Submission ε) (more : Bool) (levels : Nat) :
    Session ε :=
  let s := { s with evaluated := s.evaluated ++ [line] }
  let s := (unseen s.streams sub).foldl write s
  (s.newTurn more levels).andThen draw

/-- How far the cursor is moved back into a line that is edited again: its distance from the end,
as a 32-bit number. -/
def cursorMotion (line : InputLine) : Int := Int.bmod line.offset 0x100000000

/-- Goes back to the line that `before` was editing. -/
def editAgain (s before : Session ε) (now : Int) : Session ε :=
  let text := before.line.text
  let history :=
    if before.history.entries.length < s.history.entries.length then s.history.pop else s.history
  let s := { s with
    history
    buffer := s.buffer.dropLast
    renderer := (s.renderer.rewind before.renderer.transcript.mark).beginInput before.isContinuation
    line := (s.line.set text).move (cursorMotion before.line)
    turn := if text.isEmpty then .empty else .editing }
  (s.showMessage (bytes "KeyboardInterrupt") now).draw

/-- Evaluates the line being edited. Only an interrupt that comes meanwhile counts. -/
def submit [Evaluator ε] (s : Session ε) (now : Int) : Session ε :=
  let line : Evaluated := { text := s.line.text, mark := s.renderer.transcript.mark }
  let sub := Evaluator.submit s.evaluator s.surroundings.env s.surroundings.patience.clear line.text
  let s' := ((s.commit.send [.suspend true]).follow sub).send [.suspend false]
  match sub.outcome with
  | .exit => { s' with turn := .exiting }
  | .interrupted => s'.editAgain s now
  | .finished more levels => s'.accept line sub more levels
  | .failed _ => s'.accept line sub false 0

/-- Replaces the line being edited and evaluates it. -/
def submitText [Evaluator ε] (s : Session ε) (text : Bytes) (now : Int) : Session ε :=
  if s.isExiting then s else { s with line := s.line.set text }.submit now

/-! ### Taking back -/

/-- An evaluator that is fed all lines anew, silently. -/
structure Replay (ε : Type) where
  evaluator : ε
  patience : Patience
  buffer : List Bytes := []
  levels : Nat := 0
  hasFailed : Bool := false

namespace Replay

def feed [Evaluator ε] (env : Environment) (r : Replay ε) (text : Bytes) : Replay ε :=
  let sub := Evaluator.submit r.evaluator env r.patience text
  let r := { r with evaluator := sub.next, patience := sub.patience }
  match sub.outcome with
  | .finished true levels => { r with buffer := r.buffer ++ [text], levels }
  | .finished false _ => { r with buffer := [] }
  | _ => { r with buffer := [], hasFailed := true }

end Replay

/-- Evaluates all evaluated lines anew, from nothing. Also answers the indentation for the next line
of an unfinished statement, if no line failed. -/
def replay [Evaluator ε] (s : Session ε) : Option Nat × Session ε :=
  let start : Replay ε :=
    { evaluator := Evaluator.reset s.evaluator, patience := s.surroundings.patience }
  let r := (s.evaluated.map (·.text)).foldl (Replay.feed s.surroundings.env) start
  (if r.hasFailed then none else some r.levels,
    { s with
      evaluator := r.evaluator
      surroundings := { s.surroundings with patience := r.patience }
      buffer := r.buffer })

/-- Takes the newest evaluated line back, together with what it wrote. -/
def undo [Evaluator ε] (s : Session ε) (now : Int) : Session ε :=
  match s.evaluated.getLast? with
  | none => (s.showMessage (bytes "Nothing to rewind.") now).draw
  | some line =>
    let (levels, s) := { s with evaluated := s.evaluated.dropLast }.replay
    let s := { s with renderer := s.renderer.rewind line.mark }
    let message := if levels.isSome then bytes "Rewound one line."
      else bytes "Rewound, some lines failed to replay."
    (s.newTurn s.isContinuation (levels.getD 0)).andThen fun s => (s.showMessage message now).draw

/-- Drops the last lines of a number, and what they did. -/
def forget [Evaluator ε] (s : Session ε) (n : Nat) : Session ε :=
  if n = 0 then s
  else { s with evaluated := s.evaluated.take (s.evaluated.length - n) }.replay.2

/-- Gives up the line being edited, and the statement that it goes on with. -/
def cancel [Evaluator ε] (s : Session ε) (now : Int) : Session ε :=
  let message := bytes "KeyboardInterrupt"
  let s := { s with renderer := s.renderer.commitInput s.line.text s.isContinuation }
  let s := (s.write { text := message, isError := true }).forget s.buffer.length
  ((s.newTurn false 0).showMessage message now).draw

end Session
end CalcShell
