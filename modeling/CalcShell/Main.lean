import CalcShell.Program.Help
import CalcShell.Program.Shell

/-!
The command line of the calculator shell. Keys come from standard input and the screen goes to standard
output; both have to be a terminal.
-/
namespace CalcShell
namespace Program

def toBytes (data : ByteArray) : Bytes := data.toList

def write (stream : IO.FS.Stream) (text : Bytes) : IO Unit := do
  stream.write ⟨text.toArray⟩
  stream.flush

/-- Paints what the session has sent. -/
def paint (t : Terminal) (s : Shell.State) : IO (Terminal × Shell.State) := do
  let (commands, s) := s.takeSent
  let (out, t) := t.drawAll commands
  write (← IO.getStdout) out
  return (t, s)

/-- Writes the files of a session that did not exist before. -/
def writeFiles (s : Shell.State) : IO Shell.State := do
  for (place, node) in s.surroundings.files.nodes do
    match node, String.fromUTF8? ⟨([Ascii.code '/'].intercalate place).toArray⟩ with
    | .file content, some path => IO.FS.writeBinFile path ⟨content.toArray⟩
    | _, _ => pure ()
  return { s with surroundings := { s.surroundings with files := .empty } }

/-- Takes keys until the user leaves or the input ends. -/
partial def interact (t : Terminal) (s : Shell.State) : IO (Terminal × Shell.State × ShellEnd) := do
  let (t, s) ← paint t s
  let s ← writeFiles s
  if s.isExiting then return (t, s, .exited)
  if s.isStuck then return (t, s, .stuck)
  match t.keys.next with
  | .error _ => return (t, s, .closed)
  | .ok (some key, keys) =>
    interact { t with keys } (Shell.step s (.key key) (← IO.monoNanosNow))
  | .ok (none, keys) =>
    let s := Shell.step s .silence (← IO.monoNanosNow)
    if keys.unread.isEmpty && !keys.isClosed then
      let (t, s) ← paint t s
      let data ← (← IO.getStdin).read KeyStream.readSize.toUSize
      let keys := if data.isEmpty then keys.close else keys.feed (toBytes data)
      interact { t with keys } s
    else interact { t with keys } s

def readHistory (history : History) : IO History := do
  match String.fromUTF8? ⟨history.path.toArray⟩ with
  | some path =>
    try
      return history.addLines (toBytes (← IO.FS.readBinFile path))
    catch _ => return history
  | none => return history

def saveHistory (history : History) : IO Unit := do
  let warn := do write (← IO.getStderr) history.saveWarning
  match String.fromUTF8? ⟨history.path.toArray⟩ with
  | some path =>
    try
      IO.FS.writeBinFile path ⟨(Bytes.unlines history.entries).toArray⟩
    catch _ => warn
  | none => warn

def environment : IO Environment := do
  let names := ["HOME", "POSIXLY_CORRECT"]
  let values ← names.filterMapM fun name => do
    return (← IO.getEnv name).map fun value => (bytes name, bytes value)
  return .ofPairs values

/-- The exit status of a program that could not do its work. -/
def failureStatus : UInt32 := 2

def fail (message : Bytes) : IO UInt32 := do
  write (← IO.getStderr) (bytes "Error: " ++ message ++ [Ascii.newline])
  return failureStatus

/-- Runs the shell on the terminal. -/
def runShell (options : Options) : IO UInt32 := do
  let config : Config := {}
  let env ← environment
  let history ← readHistory (Shell.history config options env [])
  let (out, t) := (Terminal.new config.colors none false).enter
  write (← IO.getStdout) out
  let s := Shell.start config history none { env }
  let (t, s, ending) ← interact t s
  saveHistory s.history
  write (← IO.getStdout) t.leave.1
  match ending with
  | .exited =>
    unless options.isQuiet do
      write (← IO.getStdout) (bytes "History file: " ++ s.history.path ++ [Ascii.newline])
    return 0
  | .closed => fail KeyStream.closedMessage
  | .stuck => fail (bytes "the distance of tab stops is negative")

/-- The whole program. -/
def run (arguments : List Bytes) : IO UInt32 := do
  match start (← environment) arguments with
  | .error result =>
    write (← IO.getStdout) result.output
    write (← IO.getStderr) result.errors
    return result.code.toUInt32
  | .ok options =>
    if (← (← IO.getStdin).isTty) && (← (← IO.getStdout).isTty) then runShell options
    else fail (bytes "replview needs an interactive terminal")

end Program
end CalcShell

def main (arguments : List String) : IO UInt32 :=
  CalcShell.Program.run (arguments.map CalcShell.bytes)
