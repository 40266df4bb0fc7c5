import CalcShell.Evaluation

/-!
An evaluator that answers each line with the line itself: enough of a language to try a shell with.
Some lines fail, wait, or open a block that a blank line closes.
-/
namespace CalcShell

structure Echo where
  /-- The line that waits until the user interrupts it. -/
  waitsOn : Bytes := bytes "sleep()"
  /-- Every line taken so far. -/
  taken : List Bytes := []
  resets : Nat := 0
  isInBlock : Bool := false
deriving DecidableEq, Repr, Inhabited

namespace Echo

/-- The rest of a line behind a command. -/
def argument? (command : String) (line : Bytes) : Option Bytes :=
  if (bytes command).isPrefixOf line then some (line.drop (bytes command).length) else none

def reply (line : Bytes) : List Piece :=
  if line.isEmpty then []
  else
    match argument? "fail " line with
    | some text => [{ text := bytes "Oops: " ++ text ++ [Ascii.newline], isError := true }]
    | none => [{ text := bytes "=> " ++ line ++ [Ascii.newline] }]

def submit (e : Echo) (patience : Patience) (line : Bytes) : Submission Echo :=
  let ended (outcome : Outcome) (pieces : List Piece) (next : Echo) : Submission Echo :=
    { outcome, pieces, next, patience }
  let next := { e with taken := e.taken ++ [line] }
  match argument? "throw " line with
  | some text => ended (.failed text) [] e
  | none =>
    if line = e.waitsOn then ended .interrupted [] e
    else if line = bytes "exit()" then ended .exit [] e
    else if line.getLast? = some (Ascii.code ':') then
      ended (.finished true 1) [] { next with isInBlock := true }
    else if e.isInBlock then
      if line.any (· != Ascii.space) then ended (.finished true 1) [] next
      else
        ended (.finished false 0) [{ text := bytes "block done\n" }] { next with isInBlock := false }
    else ended (.finished false 0) (reply line) next

instance : Evaluator Echo where
  submit e _ patience line := e.submit patience line
  reset e := { e with resets := e.resets + 1, isInBlock := false }

end Echo
end CalcShell
