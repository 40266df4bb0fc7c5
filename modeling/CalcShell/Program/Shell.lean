import CalcShell.Calc.Evaluator
import CalcShell.Program.Options
import CalcShell.Screen.Terminal
import CalcShell.Session.Events

/-!
The calculator shell: a session with the calculator, whose history outlives it. The history is saved
when the shell ends, in whatever way it does.
-/
namespace CalcShell

/-- What reaches a shell between two ticks. -/
inductive ShellInput where
  | key (key : Bytes)
  /-- Only time passes. -/
  | silence
  /-- Clients connect, send or end. -/
  | clients (change : Listener → Listener)

inductive ShellEnd where
  /-- The user left. -/
  | exited
  /-- There is no more input. -/
  | closed
  /-- The session could not go on. -/
  | stuck
deriving DecidableEq, Repr

namespace Shell

abbrev State := Session Calc.Calculator

def greeting : Bytes :=
  bytes "replview calculator shell. Type help() for help, exit() to leave."

def banner (port : Option Bytes) : Bytes :=
  greeting ++ match port with
    | some port => bytes "\nListening for lines on 127.0.0.1:" ++ port
    | none => []

def historyPath (config : Config) (options : Options) : Bytes :=
  if options.history.isEmpty then config.historyFile else options.history

/-- The most module files that are looked at in one tick. -/
def moduleBudget : Nat := 64

def modules (config : Config) : Option ModuleIndex :=
  if config.moduleRoots.isEmpty then none
  else some (.new config.moduleRoots config.moduleSuffixes moduleBudget)

/-- A session with the calculator. -/
def session (config : Config) (history : History) (surroundings : Surroundings) : State :=
  .new config {} (fun c name => some (c.names.lookup name)) Calc.highlight history surroundings

/-- The history that a shell loads and saves. -/
def history (config : Config) (options : Options) (env : Environment) (accountHome : Bytes) :
    History :=
  .new env accountHome (historyPath config options) config.historyLimit

/-- The shell at its first turn. It takes lines from clients if it has a port. -/
def start (config : Config) (history : History) (port : Option Bytes)
    (surroundings : Surroundings) : State :=
  let s := session config history surroundings
  { s with
    modules := modules config
    lineSources := if port.isSome then [.clients {}] else [] }.start (banner port)

def changeClients (change : Listener → Listener) : LineSource → LineSource
  | .clients listener => .clients (change listener)
  | source => source

/-- Takes one input, and ticks. -/
def step (s : State) (input : ShellInput) (now : Int) : State :=
  let s := match input with
    | .key key => s.handleKey key now
    | .silence => s
    | .clients change => { s with lineSources := s.lineSources.map (changeClients change) }
  if s.isOver then s else s.idle now

/-- Takes inputs until the session is over. Also answers the inputs that are left. -/
def run (now : Int) : List ShellInput → State → State × ShellEnd × List ShellInput
  | [], s => (s, if s.isStuck then .stuck else if s.isExiting then .exited else .closed, [])
  | input :: rest, s =>
    if s.isStuck then (s, .stuck, input :: rest)
    else if s.isExiting then (s, .exited, input :: rest)
    else run now rest (step s input now)

/-- The files once the shell has ended and its history is saved. -/
def finish (s : State) : FileTree := (s.history.save? s.surroundings.files).getD s.surroundings.files

end Shell
end CalcShell
