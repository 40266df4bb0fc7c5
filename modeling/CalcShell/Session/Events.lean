import CalcShell.Keyboard.Key
import CalcShell.Session.Submission

/-!
The events of a session: keys, which edit the line or act on it, and ticks, in which the session
looks after everything else.
-/
namespace CalcShell
namespace Session

variable {ε : Type}

/-! ### Editing -/

/-- The line was edited. -/
def edited (s : Session ε) (line : InputLine) : Session ε :=
  let isBrowsing := s.turn == .browsing && s.history.isBrowsing
  let s := { s with line, turn := if isBrowsing then .browsing else .editing }
  (if s.isPasting then s else s.listCandidates).draw

def insertText (s : Session ε) (text : Bytes) : Session ε := s.edited (s.line.insert text)

/-- Shows the entry of the history that a motion leads to. -/
def browse (s : Session ε) (motion : History → Bytes × History) : Session ε :=
  let begun := if s.turn = .browsing then s.history else s.history.beginEdit s.line.text
  let (text, history) := motion begun
  { s.closePopup with
    history
    line := s.line.set text
    turn := if history.isBrowsing then .browsing else .editing }.draw

/-- Completes the word at the cursor. Pasted text is only indented. -/
def complete (s : Session ε) (back : Bool) : Session ε :=
  if s.isPasting then
    match if back then none else s.engine.indent? s.line with
    | some (line, engine) => { s with line, engine, turn := .editing }.draw
    | none => s
  else
    let (found, line, engine) := s.engine.complete s.completionSources s.line back
    { s with
      line, engine
      turn := if found then .editing else s.turn
      showsPopup := engine.hasContent }.draw

/-! ### Saving -/

/-- Writes the evaluated lines to a file, and tells whether that worked. -/
def save (s : Session ε) (path : Bytes) (now : Int) : Bool × Session ε :=
  let lines := s.evaluated.map (·.text)
  match s.surroundings.files.write? path (Bytes.unlines lines) with
  | some files =>
    let message :=
      bytes "Saved " ++ Bytes.ofNat lines.length ++ bytes " lines to " ++ path
    (true, ({ s with surroundings := { s.surroundings with files } }.showMessage message now).draw)
  | none => (false, (s.showMessage (bytes "Could not save transcript to " ++ path) now).draw)

/-- Asks for the rest of a path. -/
def askPath (s : Session ε) (path : Bytes) : Session ε :=
  ({ s with savePath := some path }.setStatus (bytes " Save transcript to: " ++ path)).draw

def dropPath (s : Session ε) (now : Int) : Session ε :=
  ({ s with savePath := none }.showMessage (bytes "Transcript not saved.") now).draw

/-- A key while the session asks for a path. -/
def typePath (s : Session ε) (path key : Bytes) (now : Int) : Session ε :=
  match s.config.keys.lookup key with
  | .submit => if path.isEmpty then s.dropPath now else ({ s with savePath := none }.save path now).2
  | .escape | .interrupt => s.dropPath now
  | .backspace => s.askPath (path.take (path.length - Utf8.lastLength path.reverse))
  | .ignore => s.askPath (if Key.isPrintable key then path ++ key else path)
  | _ => s.askPath path

/-! ### Keys -/

/-- Carries out an action. -/
def perform [Evaluator ε] (s : Session ε) (action : Action) (now : Int) : Session ε :=
  match action with
  | .ignore => s
  | .backspace => s.edited (s.line.backspace true).2
  | .deleteForward =>
    if s.line.isEmpty then { s with turn := .exiting } else s.edited s.line.deleteForward
  | .clearWord => s.edited s.line.backspaceWord
  | .clearLine => s.edited s.line.clearToStart
  | .cutToBuffer => s.edited s.line.cutToEnd
  | .yank => s.edited s.line.yank
  | .cursorLeft => s.edited (s.line.move 1)
  | .cursorRight => s.edited (s.line.move (-1))
  | .home => s.edited s.line.home
  | .finish => s.edited s.line.toEnd
  | .historyBack => s.browse History.back
  | .historyForward => s.browse History.forward
  | .historyFirst => s.browse History.first
  | .historyLast => s.browse History.last
  | .complete => s.complete false
  | .completeBack => s.complete true
  | .submit => s.submit now
  | .clearScreen => { s with renderer := s.renderer.clearScreen }.draw
  | .undo => s.undo now
  | .exit => { s with turn := .exiting }
  | .interrupt => s.cancel now
  | .escape => { s with showsPopup := false }.draw
  | .saveTranscript => s.askPath []

def handleAction [Evaluator ε] (s : Session ε) (action : Action) (now : Int) : Session ε :=
  if s.isExiting then s else s.perform action now

/-- Notes when a key came. One that follows the last key closely begins a paste. -/
def noteKey (s : Session ε) (now : Int) : Session ε :=
  let isPaste := s.lastKey.any fun last => s.config.isPaste (now - last)
  { s with isPasting := s.isPasting || isPaste, lastKey := some now }

def handleKey [Evaluator ε] (s : Session ε) (key : Bytes) (now : Int) : Session ε :=
  if s.isExiting then s
  else
    let s := s.noteKey now
    match s.savePath with
    | some path => s.typePath path key now
    | none =>
      match s.config.keys.lookup key with
      | .ignore => if Key.isPrintable key then s.insertText key else s
      | action => s.perform action now

/-! ### Ticks -/

/-- Takes a new size of the screen over, as soon as it has one. -/
def checkSize (s : Session ε) : Session ε :=
  if !s.isResized then s
  else
    let size := s.surroundings.size
    let s := s.send [.measured size]
    if size.isDegenerate then s
    else if size = s.renderer.geometry then { s with isResized := false }
    else { s with isResized := false, renderer := s.renderer.setGeometry size }.draw

def checkPaste (s : Session ε) (now : Int) : Session ε :=
  if s.isPasting && s.lastKey.any fun last => s.config.endsPaste (now - last) then
    ({ s with isPasting := false }.listCandidates).draw
  else s

/-- A message whose time is up goes; while the session asks for a path, the question stays. -/
def checkStatus (s : Session ε) (now : Int) : Session ε :=
  let (isGone, status) := s.status.check now
  let s := { s with status }
  if isGone && s.savePath.isNone then (s.setStatus status.text).draw else s

def stepModules (s : Session ε) : Session ε :=
  { s with modules := s.modules.map fun index => (index.step s.surroundings.files).2 }

def submitLines [Evaluator ε] (s : Session ε) (lines : List Bytes) (now : Int) : Session ε :=
  lines.foldl (fun s line => if s.isOver then s else s.submitText line now) s

/-- Submits the lines of one source after the other, until the session is over. -/
def submitSources [Evaluator ε] (now : Int) :
    (waiting done : List LineSource) → Session ε → Session ε
  | [], done, s => { s with lineSources := done }
  | source :: waiting, done, s =>
    let (lines, source) := source.take
    let s := s.submitLines lines now
    let done := done ++ [source]
    if s.isOver then { s with lineSources := done ++ waiting }
    else submitSources now waiting done s

/-- A tick. -/
def idle [Evaluator ε] (s : Session ε) (now : Int) : Session ε :=
  if s.isExiting then s
  else
    let s := ((s.checkSize.checkPaste now).checkStatus now).stepModules
    submitSources now s.lineSources [] s

/-! ### All events -/

inductive Event where
  | key (key : Bytes)
  | action (action : Action)
  /-- Text for the line being edited. -/
  | text (text : Bytes)
  /-- A whole line to evaluate. -/
  | line (text : Bytes)
  | tick
  | message (text : Bytes)
  /-- The evaluated lines are to be saved. -/
  | save (path : Bytes)
  /-- The screen has a new size, and may announce it. -/
  | resize (size : Geometry) (isAnnounced : Bool)
  /-- Lines come from one more source. -/
  | source (source : LineSource)
deriving DecidableEq, Repr

def handle [Evaluator ε] (s : Session ε) (event : Event) (now : Int) : Session ε :=
  match event with
  | .key key => s.handleKey key now
  | .action action => s.handleAction action now
  | .text text => s.insertText text
  | .line text => s.submitText text now
  | .tick => s.idle now
  | .message text => s.showMessage text now
  | .save path => (s.save path now).2
  | .resize size isAnnounced =>
    { s with
      surroundings := { s.surroundings with size }, isResized := s.isResized || isAnnounced }
  | .source source => { s with lineSources := s.lineSources ++ [source] }

/-- Events that follow each other after some time each, in nanoseconds, until the session is stuck.
Also answers the time. -/
def handleAll [Evaluator ε] (gap : Int) : List Event → Session ε → Int → Session ε × Int
  | [], s, now => (s, now)
  | event :: rest, s, now =>
    if s.isStuck then (s, now) else handleAll gap rest (s.handle event (now + gap)) (now + gap)

/-- Changes the time until the user interrupts. -/
def withPatience (s : Session ε) (patience : Patience) : Session ε :=
  { s with surroundings := { s.surroundings with patience } }

end Session
end CalcShell
