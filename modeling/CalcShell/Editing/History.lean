import CalcShell.Environment
import CalcShell.Files.Tree

/-!
The lines submitted before, oldest first, and the position of the user who browses them. Browsing
never changes the entries.
-/
namespace CalcShell

structure History where
  entries : List Bytes := []
  /-- How many entries back from the newest one the user is; zero while not browsing. -/
  position : Nat := 0
  /-- The line that was being edited when browsing began. -/
  draft : Bytes := []
  /-- The most entries kept; zero keeps all. -/
  limit : Nat := 1000
  path : Bytes := []
deriving Repr, Inhabited

namespace History

def fileName : Bytes := bytes ".replview_history"

/-- The history file in the home directory, or in the working directory if there is no home. -/
def defaultPath (home : Bytes) : Bytes :=
  if home.isEmpty then fileName
  else if home.getLast? = some (Ascii.code '/') then home ++ fileName
  else home ++ [Ascii.code '/'] ++ fileName

/-- A negative bound is as good as none. -/
def limitOfInt (bound : Int) : Nat := bound.toNat

/-- An empty history that is kept in the file at `path`, or in the default one for an empty path. The
account's home directory stands in for a missing variable. -/
def new (env : Environment) (accountHome path : Bytes) (bound : Int) : History :=
  { path := if path.isEmpty then defaultPath (env.home?.getD accountHome) else path
    limit := limitOfInt bound }

def isBrowsing (history : History) : Bool := history.position != 0

/-- The newest entries up to the limit. -/
def trimTo (limit : Nat) (entries : List Bytes) : List Bytes :=
  if limit = 0 then entries else entries.drop (entries.length - limit)

/-- Adds the lines of a text that are not empty. -/
def addLines (history : History) (text : Bytes) : History :=
  { history with
    entries := trimTo history.limit (history.entries ++ text.lines.filter (!·.isEmpty))
    position := 0 }

/-- Adds the lines of the history file; a directory in its place has none. -/
def load (history : History) (files : FileTree) : History :=
  if (files.node? history.path).isSome then
    history.addLines ((files.read? history.path).getD [])
  else history

/-- The files after the entries were written, or nothing if they could not be. -/
def save? (history : History) (files : FileTree) : Option FileTree :=
  files.write? history.path (Bytes.unlines history.entries)

/-- A path in double quotes, with a backslash before quotes and backslashes. -/
def quotedPath (path : Bytes) : Bytes :=
  [Ascii.doubleQuote] ++
    path.flatMap (fun b =>
      if b = Ascii.doubleQuote || b = Ascii.backslash then [Ascii.backslash, b] else [b]) ++
    [Ascii.doubleQuote]

/-- What is reported when the entries could not be written. -/
def saveWarning (history : History) : Bytes :=
  bytes "Warning: Could not save command history to " ++ quotedPath history.path ++
    [Ascii.newline]

/-- Records a line unless it is empty, and ends browsing. -/
def append (history : History) (line : Bytes) : History :=
  if line.isEmpty then { history with position := 0 }
  else
    { history with entries := trimTo history.limit (history.entries ++ [line]), position := 0 }

/-- Forgets the newest entry. -/
def pop (history : History) : History :=
  { history with entries := history.entries.dropLast, position := 0 }

def beginEdit (history : History) (draft : Bytes) : History :=
  { history with draft, position := 0 }

/-- The entry at the browse position. -/
def shown (history : History) : Bytes :=
  history.entries[history.entries.length - history.position]?.getD []

/-- Goes to a position, or stays at the draft when there are no entries. -/
def goTo (history : History) (position : Nat) : Bytes × History :=
  if history.entries.isEmpty then (history.draft, history)
  else
    let moved := { history with position }
    (moved.shown, moved)

def first (history : History) : Bytes × History := history.goTo history.entries.length

def last (history : History) : Bytes × History := history.goTo 1

def back (history : History) : Bytes × History :=
  history.goTo (if history.position < history.entries.length then history.position + 1
    else history.position)

def forward (history : History) : Bytes × History :=
  if 1 < history.position then
    let moved := { history with position := history.position - 1 }
    (moved.shown, moved)
  else (history.draft, { history with position := 0 })

/-- Ends browsing and forgets the draft. -/
def reset (history : History) : History := { history with draft := [], position := 0 }

def setLimit (history : History) (bound : Int) : History :=
  let limit := limitOfInt bound
  { history with limit, entries := trimTo limit history.entries }

end History
end CalcShell
