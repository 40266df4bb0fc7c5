import CalcShell.Completion.Engine
import CalcShell.Editing.History
import CalcShell.Evaluation
import CalcShell.Screen.Renderer
import CalcShell.Session.Config
import CalcShell.Session.Listener
import CalcShell.Session.Status

/-!
A session: the line being edited, what was evaluated so far, and everything that the screen shows
of it. A session never acts on its own; it changes by the events that it is given, and collects the
commands for the screen.
-/
namespace CalcShell

/-- Where the session stands with the line being edited. -/
inductive Turn where
  | empty | editing
  /-- Nothing has been typed yet on a further line of a statement. -/
  | continuing
  | browsing
  /-- The line is being evaluated. -/
  | submitted
  | exiting
deriving DecidableEq, Repr, Inhabited

namespace Turn

def label : Turn → String
  | .empty => "empty"
  | .editing => "editing"
  | .continuing => "awaiting_continuation"
  | .browsing => "history_browsing"
  | .submitted => "submitted"
  | .exiting => "exiting"

end Turn

/-- A line that the evaluator has taken. -/
structure Evaluated where
  text : Bytes
  /-- Number of its first line in the transcript. -/
  mark : Nat
deriving DecidableEq, Repr

/-- Where lines come from that nobody types. -/
inductive LineSource where
  /-- One line at every tick. -/
  | script (lines : List Bytes)
  | clients (listener : Listener)
deriving DecidableEq, Repr

namespace LineSource

/-- The lines for this tick. -/
def take : LineSource → List Bytes × LineSource
  | .script [] => ([], .script [])
  | .script (line :: lines) => ([line], .script lines)
  | .clients listener =>
    let (lines, listener) := listener.poll
    (lines, .clients listener)

end LineSource

/-- What a session finds around itself. -/
structure Surroundings where
  files : FileTree := .empty
  env : Environment := .empty
  /-- Size of the screen. -/
  size : Geometry := .standard
  patience : Patience := {}

structure Session (ε : Type) where
  config : Config := {}
  evaluator : ε
  /-- The names that can be completed. -/
  symbols : ε → SymbolSource
  /-- Whether text written by an evaluation is shown at once, and not only after it. -/
  streams : Bool := true
  /-- Whether the screen follows every text that is shown at once. -/
  redraws : Bool := true
  surroundings : Surroundings := {}
  modules : Option ModuleIndex := none
  lineSources : List LineSource := []
  history : History := {}
  line : InputLine := {}
  engine : Completion.Engine := {}
  renderer : Renderer
  status : StatusBar := {}
  turn : Turn := .empty
  isPasting : Bool := false
  showsPopup : Bool := false
  /-- The screen has announced a new size that was not taken over yet. -/
  isResized : Bool := false
  /-- When the last key came, in nanoseconds. -/
  lastKey : Option Int := none
  /-- The path typed so far while the session asks where to save the lines. -/
  savePath : Option Bytes := none
  /-- Lines of the statement being entered, but for the one being edited. -/
  buffer : List Bytes := []
  /-- Lines that the evaluator has taken, oldest first. -/
  evaluated : List Evaluated := []
  /-- A turn could not be indented, since the distance of tab stops is negative. -/
  isStuck : Bool := false
  /-- Commands for the screen. -/
  sent : Array Draw := #[]

namespace Session

variable {ε : Type}

def isExiting (s : Session ε) : Bool := s.turn == .exiting

/-- The line being edited goes on with a statement. -/
def isContinuation (s : Session ε) : Bool := !s.buffer.isEmpty

def isOver (s : Session ε) : Bool := s.isExiting || s.isStuck

def send (s : Session ε) (commands : List Draw) : Session ε := { s with sent := s.sent ++ commands }

/-- The commands collected so far, and the session that goes on without them. -/
def takeSent (s : Session ε) : List Draw × Session ε := (s.sent.toList, { s with sent := #[] })

/-! ### Showing -/

def frame (s : Session ε) : Frame :=
  { isActive := s.turn != .submitted && s.turn != .exiting
    text := s.line.text
    cursor := s.line.index
    isContinuation := s.isContinuation
    isPaste := s.isPasting
    popup := if s.showsPopup then s.engine.popup? else none }

def draw (s : Session ε) : Session ε :=
  let (commands, renderer) := s.renderer.render s.frame
  { s with renderer }.send commands

/-- Adds text to the transcript without drawing it. -/
def write (s : Session ε) (piece : Piece) : Session ε :=
  { s with renderer := s.renderer.appendOutput piece.text piece.isError }

/-- Adds text that is shown at once. -/
def stream (s : Session ε) (piece : Piece) : Session ε :=
  let s := s.write piece
  if s.redraws then
    let (commands, renderer) := s.renderer.redraw
    { s with renderer }.send commands
  else s

def setStatus (s : Session ε) (text : Bytes) : Session ε :=
  { s with renderer := s.renderer.setStatus text }

def showMessage (s : Session ε) (text : Bytes) (now : Int) : Session ε :=
  let status := s.status.display text now s.config.messageTime
  { s with status }.setStatus status.text

/-! ### Completion -/

def closePopup (s : Session ε) : Session ε :=
  { s with engine := s.engine.clear, showsPopup := false }

def completionSources (s : Session ε) : Completion.Sources :=
  { symbols := s.symbols s.evaluator, modules := s.modules, files := s.surroundings.files
    env := s.surroundings.env }

def listCandidates (s : Session ε) : Session ε :=
  if s.config.listsCandidates then
    let engine := s.engine.refresh s.completionSources s.line
    { s with engine, showsPopup := engine.hasContent }
  else s.closePopup

/-! ### Turns -/

/-- Indents an empty line. -/
def indent (s : Session ε) (levels : Nat) : Session ε :=
  if s.config.tabLength < 0 then { s with isStuck := true }
  else { s with line := s.line.insert (Bytes.spaces (levels * s.config.tabLength.toNat)) }

/-- Begins with an empty line, of a new statement or of one that goes on. -/
def newTurn (s : Session ε) (more : Bool) (levels : Nat) : Session ε :=
  let s := { s.closePopup with
    buffer := if more then s.buffer else []
    line := s.line.clear
    history := s.history.reset
    turn := if more then .continuing else .empty
    renderer := s.renderer.beginInput more }
  if more && 0 < levels && !s.isPasting then s.indent levels else s

/-- Goes on unless the session is stuck. -/
def andThen (s : Session ε) (next : Session ε → Session ε) : Session ε :=
  if s.isStuck then s else next s

/-- A session that has not begun its first turn. -/
def new (config : Config) (evaluator : ε) (symbols : ε → SymbolSource)
    (tokenize : Bytes → StyledLine) (history : History) (surroundings : Surroundings) :
    Session ε :=
  { config, evaluator, symbols, history, surroundings
    line := { tabLength := config.tabLength }
    engine := { tabLength := config.tabLength, showsSignatures := config.showsSignatures }
    renderer := { tokenize, showsTokens := config.showsTokens }
    status := { permanent := config.legend } }

/-- Asks the screen for its size and begins the first turn below a banner. -/
def start (s : Session ε) (banner : Bytes) : Session ε :=
  let size := s.surroundings.size
  let s := s.send [.measured size]
  let s := { s with renderer := s.renderer.setGeometry size }
  let s := if banner.isEmpty then s else s.write { text := banner }
  ((s.setStatus s.status.text).newTurn false 0).draw

end Session
end CalcShell
