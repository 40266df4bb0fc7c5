import CalcShell.Keyboard.Action
import CalcShell.Keyboard.Key

/-!
Key bindings. Each action has a list of keys, and a key belongs to the action it was bound to
last.
-/
namespace CalcShell

structure UnknownKey where
  action : Action
  key : Bytes
deriving DecidableEq, Repr

/-- A report that a NUL byte ends. -/
def UnknownKey.message (e : UnknownKey) : Bytes :=
  Bytes.untilNul
    (bytes "Unknown key '" ++ e.key ++ bytes "' for action '" ++ bytes e.action.label ++ bytes "'")

structure KeyMap where
  bindings : List (Action × List Bytes)
deriving Repr

namespace KeyMap

def empty : KeyMap := ⟨[]⟩

def keysFor (map : KeyMap) (action : Action) : List Bytes := (map.bindings.lookup action).getD []

def lookup (map : KeyMap) (key : Bytes) : Action :=
  ((map.bindings.find? (·.2.contains key)).map (·.1)).getD .ignore

/-- Gives `action` exactly these keys and takes them from every other action. -/
def assign (map : KeyMap) (action : Action) (keys : List Bytes) : KeyMap :=
  ⟨(action, keys) :: (map.bindings.filter (·.1 != action)).map fun (other, theirs) =>
    (other, theirs.filter (!keys.contains ·))⟩

@[simp] theorem keysFor_assign_self (map : KeyMap) (action : Action) (keys : List Bytes) :
    (map.assign action keys).keysFor action = keys := by simp [keysFor, assign]

/-- Refuses the whole list, and changes nothing, if one of the keys has no known name. -/
def bind (map : KeyMap) (action : Action) (keys : List Bytes) : Except UnknownKey KeyMap :=
  match keys.find? (!Key.isKnown ·) with
  | some key => .error ⟨action, key⟩
  | none => .ok (map.assign action keys)

def defaults : KeyMap :=
  ⟨[(.backspace, ["KEY_BACKSPACE"]), (.deleteForward, ["KEY_DC", "C-d"]), (.clearWord, ["C-w"]),
    (.clearLine, ["C-u"]), (.cutToBuffer, ["C-k"]), (.yank, ["C-y"]),
    (.cursorLeft, ["KEY_LEFT", "C-b"]), (.cursorRight, ["KEY_RIGHT", "C-f"]),
    (.home, ["KEY_HOME", "C-a"]), (.finish, ["KEY_END", "C-e"]),
    (.historyBack, ["KEY_UP", "C-p"]), (.historyForward, ["KEY_DOWN", "C-n"]),
    (.historyFirst, ["KEY_PPAGE"]), (.historyLast, ["KEY_NPAGE"]), (.complete, ["TAB"]),
    (.completeBack, ["KEY_BTAB"]), (.submit, ["ENTER"]), (.clearScreen, ["C-l"]),
    (.undo, ["C-r"]), (.interrupt, ["C-c"]), (.escape, ["ESC"]),
    (.saveTranscript, ["C-o"])].map fun (action, keys) => (action, keys.map bytes)⟩

end KeyMap
end CalcShell
