import CalcShell.Keyboard.Binding
import CalcShell.Screen.Color

/-!
The settings of a shell.
-/
namespace CalcShell

structure Config where
  tabLength : Int := 4
  /-- Keys that follow each other within this many seconds are pasted text. -/
  pasteTime : Float := 0.02
  /-- Whether candidates are listed after every edit, and not only on request. -/
  listsCandidates : Bool := true
  showsTokens : Bool := true
  showsSignatures : Bool := true
  /-- How many seconds a message stays. -/
  messageTime : Float := 3.0
  historyLimit : Int := 1000
  /-- An empty path stands for the default file. -/
  historyFile : Bytes := []
  moduleRoots : List Bytes := []
  moduleSuffixes : List Bytes := [bytes ".py"]
  keys : KeyMap := .defaults
  colors : ColorScheme := .defaults

namespace Config

/-- Whether keys `elapsed` nanoseconds apart belong to one paste. -/
def isPaste (config : Config) (elapsed : Int) : Bool :=
  Float.ofInt elapsed ≤ config.pasteTime * 1000000000.0

/-- Whether a paste is over after `elapsed` nanoseconds. -/
def endsPaste (config : Config) (elapsed : Int) : Bool :=
  config.pasteTime * 1000000000.0 < Float.ofInt elapsed

/-- The permanent text of the status bar: the first keys of some actions. -/
def legend (config : Config) : Bytes :=
  [(Action.undo, "Rewind"), (.clearScreen, "Clear"), (.saveTranscript, "Save"),
    (.deleteForward, "Exit")].flatMap fun (action, label) =>
    match config.keys.keysFor action with
    | key :: _ => bytes " <" ++ key ++ bytes "> " ++ bytes label ++ bytes " "
    | [] => []

end Config
end CalcShell
